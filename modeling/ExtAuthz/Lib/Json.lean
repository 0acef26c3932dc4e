/-
  Json — documents, as `serde_json` writes them and as derived `Deserialize`
  implementations read them.

  * `Json` is a document: an object keeps its members in document order, also
    repeated ones, and a float is the text of a number;
  * `Value` is `serde_json::Value`, a document whose objects are `BTreeMap`s:
    the last member of a name wins and the members are in key order;
  * `ValueReader` reads a document into a `Value`.  `readValue_of_verbatim` says
    which documents are read as they are;
  * `render` is the compact writer, of which only the length matters here;
  * `ofFields` writes a struct (`skip_serializing_if`) and `readFields` reads
    one (`deny_unknown_fields`, `default`).  `readFields_ofFields` and
    `member_present` say that the second inverts the first, for every struct.
-/
import ExtAuthz.Lib.Text

/-- A JSON document. -/
inductive Json where
  | null
  | bool (b : Bool)
  /-- A number that is written as an integer. -/
  | num (n : ℤ)
  /-- Another number, by its text. -/
  | float (text : String)
  | str (s : String)
  | arr (xs : List Json)
  | obj (fs : List (String × Json))
  deriving Repr

namespace Json

/-! ## Maps -/

section
variable {β : Type}

theorem ofList_toList (m : Std.ExtTreeMap String β) : Std.ExtTreeMap.ofList m.toList = m := by
  apply Std.ExtTreeMap.ext_getElem?
  intro k
  cases hk : m[k]? with
  | some v =>
    exact Std.ExtTreeMap.getElem?_ofList_of_mem (by simp) m.distinct_keys_toList
      (Std.ExtTreeMap.mem_toList_iff_getElem?_eq_some.2 hk)
  | none =>
    apply Std.ExtTreeMap.getElem?_ofList_of_contains_eq_false
    rw [List.contains_eq_mem, decide_eq_false_iff_not, List.mem_map]
    rintro ⟨⟨k', v⟩, hm, rfl⟩
    rw [Std.ExtTreeMap.mem_toList_iff_getElem?_eq_some, hk] at hm
    cases hm

theorem mem_of_mem_toList_ofList {l : List (String × β)} {p : String × β}
    (h : p ∈ (Std.ExtTreeMap.ofList l).toList) : p ∈ l := by
  obtain ⟨k, v⟩ := p
  rw [Std.ExtTreeMap.mem_toList_iff_getElem?_eq_some, Std.ExtTreeMap.ofList_eq_foldl] at h
  induction l using List.reverseRecOn with
  | nil => simp at h
  | append_singleton l p ih =>
    rw [List.foldl_append, List.foldl_cons, List.foldl_nil, Std.ExtTreeMap.getElem?_insert] at h
    split_ifs at h with hk
    · simp at hk h
      simp [← hk, ← h]
    · exact List.mem_append_left _ (ih h)

end

/-! ## Values -/

mutual

/-- The document read into maps: the last member of a name wins, and the
    members are in key order. -/
def normal : Json → Json
  | .arr xs => .arr (normalList xs)
  | .obj fs => .obj (Std.ExtTreeMap.ofList (normalFields fs)).toList
  | .null => .null
  | .bool b => .bool b
  | .num n => .num n
  | .float t => .float t
  | .str s => .str s

/-- The elements of an array. -/
def normalList : List Json → List Json
  | [] => []
  | x :: xs => x.normal :: normalList xs

/-- The members of an object. -/
def normalFields : List (String × Json) → List (String × Json)
  | [] => []
  | (k, v) :: fs => (k, v.normal) :: normalFields fs

end

theorem normalFields_eq_self {fs : List (String × Json)} (h : ∀ p ∈ fs, p.2.normal = p.2) :
    normalFields fs = fs := by
  induction fs with
  | nil => rfl
  | cons p fs ih =>
    obtain ⟨k, v⟩ := p
    simp only [List.forall_mem_cons] at h
    rw [normalFields, h.1, ih h.2]

mutual

theorem normal_normal : ∀ j : Json, j.normal.normal = j.normal
  | .arr xs => by rw [normal, normal, normalList_normalList xs]
  | .obj fs => by
    rw [normal, normal, normalFields_eq_self fun p hp => ?_, ofList_toList]
    exact normal_of_mem_normalFields fs p (mem_of_mem_toList_ofList hp)
  | .null | .bool _ | .num _ | .float _ | .str _ => by simp only [normal]

theorem normalList_normalList : ∀ xs : List Json, normalList (normalList xs) = normalList xs
  | [] => rfl
  | x :: xs => by rw [normalList, normalList, normal_normal x, normalList_normalList xs]

theorem normal_of_mem_normalFields : ∀ fs : List (String × Json), ∀ p ∈ normalFields fs,
    p.2.normal = p.2
  | [], p, hp => by simp [normalFields] at hp
  | (k, v) :: fs, p, hp => by
    rw [normalFields, List.mem_cons] at hp
    rcases hp with rfl | hp
    · exact normal_normal v
    · exact normal_of_mem_normalFields fs p hp

end

/-- A `serde_json::Value`. -/
structure Value where
  json : Json
  normal : json.normal = json

namespace Value

/-- The value that a document is read into. -/
def ofJson (j : Json) : Value := ⟨j.normal, j.normal_normal⟩

/-- The string value. -/
def str (s : String) : Value := ⟨.str s, by simp only [Json.normal]⟩

/-- A value or `null` (`json!` of an `Option`). -/
def ofOption : Option String → Value
  | some s => str s
  | none => ⟨.null, by simp only [Json.normal]⟩

/-- An object with the given members (`json!({ .. })`). -/
def object (fs : List (String × Value)) : Value := ofJson (.obj (fs.map fun p => (p.1, p.2.json)))

@[simp] theorem ofJson_json (v : Value) : ofJson v.json = v := by
  obtain ⟨j, hj⟩ := v
  simp [ofJson, hj]

theorem object_ne_null (fs : List (String × Value)) : (object fs).json ≠ .null := by
  simp [object, ofJson, Json.normal]

end Value

/-! ## Reading a value -/

/-- An integer of 64 bits, signed or not. -/
def InRange (n : ℤ) : Prop := -9223372036854775808 ≤ n ∧ n ≤ 18446744073709551615

instance (n : ℤ) : Decidable (InRange n) := inferInstanceAs (Decidable (_ ∧ _))

/-- The name that the text of a raw value is kept under. -/
def rawToken : String := "$serde_json::private::RawValue"

/-- An object whose first member has this name is read as the text that it has. -/
def IsRaw (fs : List (String × Json)) : Prop := fs.head?.map Prod.fst = some rawToken

instance (fs : List (String × Json)) : Decidable (IsRaw fs) :=
  inferInstanceAs (Decidable (_ = _))

/-- What reading a value takes besides the document. -/
structure ValueReader where
  /-- The float that a number is rounded to, unless it is out of range. -/
  float : String → Option String
  /-- `serde_json::from_str`, into a value. -/
  fromStr : String → Option Value

namespace ValueReader

/-- The text of a raw value is the only member. -/
def rawText : List (String × Json) → Option String
  | [(_, .str s)] => some s
  | _ => none

mutual

/-- The document with its numbers as they are kept, and with the values of the
    raw texts in it. -/
def resolve (R : ValueReader) : Json → Option Json
  | .null => some .null
  | .bool b => some (.bool b)
  | .num n => if InRange n then some (.num n) else (R.float (toString n)).map .float
  | .float t => (R.float t).map .float
  | .str s => some (.str s)
  | .arr xs => (resolveList R xs).map .arr
  | .obj fs =>
    if IsRaw fs then ((rawText fs).bind R.fromStr).map Value.json
    else (resolveFields R fs).map .obj

/-- The elements of an array. -/
def resolveList (R : ValueReader) : List Json → Option (List Json)
  | [] => some []
  | x :: xs => (R.resolve x).bind fun y => (resolveList R xs).map (y :: ·)

/-- The members of an object. -/
def resolveFields (R : ValueReader) : List (String × Json) → Option (List (String × Json))
  | [] => some []
  | (k, v) :: fs => (R.resolve v).bind fun w => (resolveFields R fs).map ((k, w) :: ·)

end

end ValueReader

mutual

/-- Every part of a document has the property `p`. -/
def All (p : Json → Prop) : Json → Prop
  | .arr xs => p (.arr xs) ∧ AllList p xs
  | .obj fs => p (.obj fs) ∧ AllFields p fs
  | .null => p .null
  | .bool b => p (.bool b)
  | .num n => p (.num n)
  | .float t => p (.float t)
  | .str s => p (.str s)

/-- `All` of the elements of an array. -/
def AllList (p : Json → Prop) : List Json → Prop
  | [] => True
  | x :: xs => x.All p ∧ AllList p xs

/-- `All` of the members of an object. -/
def AllFields (p : Json → Prop) : List (String × Json) → Prop
  | [] => True
  | (_, v) :: fs => v.All p ∧ AllFields p fs

end

/-- No float. -/
def NotFloat : Json → Prop
  | .num n => InRange n
  | .float _ => False
  | _ => True

/-- No raw value. -/
def NotRaw : Json → Prop
  | .obj fs => ¬ IsRaw fs
  | _ => True

/-- A document without floats: its numbers are integers of 64 bits. -/
def FloatFree (j : Json) : Prop := j.All NotFloat

/-- A document that is read as it is: without floats and raw values. -/
def Verbatim (j : Json) : Prop := j.All fun k => k.NotFloat ∧ k.NotRaw

theorem allFields_iff {p : Json → Prop} : ∀ {fs : List (String × Json)},
    AllFields p fs ↔ ∀ f ∈ fs, f.2.All p
  | [] => by simp [AllFields]
  | (_, v) :: fs => by rw [AllFields, allFields_iff, List.forall_mem_cons]

theorem verbatim_obj {fs : List (String × Json)} (hn : ∀ p ∈ fs, p.1 ≠ rawToken)
    (hv : ∀ p ∈ fs, p.2.Verbatim) : (Json.obj fs).Verbatim := by
  have hraw : ¬ IsRaw fs := by
    intro hraw
    obtain ⟨p, hp, hk⟩ := Option.map_eq_some_iff.1 hraw
    exact hn p (List.mem_of_mem_head? hp) hk
  exact ⟨⟨trivial, hraw⟩, allFields_iff.2 hv⟩

namespace ValueReader

variable (R : ValueReader)

mutual

theorem resolve_of_verbatim : ∀ j : Json, j.Verbatim → R.resolve j = some j
  | .null, _ | .bool _, _ | .str _, _ => by rw [resolve]
  | .num n, h => by rw [resolve, if_pos (show InRange n from h.1)]
  | .float _, h => h.1.elim
  | .arr xs, h => by rw [resolve, resolveList_of_verbatim xs h.2, Option.map_some]
  | .obj fs, h => by
    rw [resolve, if_neg h.1.2, resolveFields_of_verbatim fs h.2, Option.map_some]

theorem resolveList_of_verbatim : ∀ xs : List Json,
    AllList (fun k => k.NotFloat ∧ k.NotRaw) xs → resolveList R xs = some xs
  | [], _ => by rw [resolveList]
  | x :: xs, h => by
    rw [resolveList, resolve_of_verbatim x h.1, Option.bind_some, resolveList_of_verbatim xs h.2,
      Option.map_some]

theorem resolveFields_of_verbatim : ∀ fs : List (String × Json),
    AllFields (fun k => k.NotFloat ∧ k.NotRaw) fs → resolveFields R fs = some fs
  | [], _ => by rw [resolveFields]
  | (k, v) :: fs, h => by
    rw [resolveFields, resolve_of_verbatim v h.1, Option.bind_some,
      resolveFields_of_verbatim fs h.2, Option.map_some]

end

end ValueReader

namespace Value

theorem verbatim_str (s : String) : (str s).json.Verbatim := ⟨trivial, trivial⟩

theorem verbatim_ofOption (o : Option String) : (ofOption o).json.Verbatim := by
  cases o <;> exact ⟨trivial, trivial⟩

/-- An object is read as it is when its members are, and no name is the token. -/
theorem verbatim_object {fs : List (String × Value)} (hn : ∀ p ∈ fs, p.1 ≠ rawToken)
    (hv : ∀ p ∈ fs, p.2.json.Verbatim) : (object fs).json.Verbatim := by
  have hself : normalFields (fs.map fun p => (p.1, p.2.json)) = fs.map fun p => (p.1, p.2.json) :=
    normalFields_eq_self fun p hp => by
      obtain ⟨q, -, rfl⟩ := List.mem_map.1 hp
      exact q.2.normal
  have hmem {p : String × Json}
      (hp : p ∈ (Std.ExtTreeMap.ofList (fs.map fun p => (p.1, p.2.json))).toList) :
      ∃ q ∈ fs, (q.1, q.2.json) = p := by
    have hp' := mem_of_mem_toList_ofList hp
    rwa [List.mem_map] at hp'
  simp only [object, ofJson, Json.normal, hself]
  refine verbatim_obj ?_ ?_
  · intro p hp
    obtain ⟨q, hq, rfl⟩ := hmem hp
    exact hn q hq
  · intro p hp
    obtain ⟨q, hq, rfl⟩ := hmem hp
    exact hv q hq

end Value

/-! ## The compact writer -/

/-- One character of a string literal. -/
def escapeChar (c : Char) : String :=
  if c = '\x22' then "\\\""
  else if c = '\x5c' then "\\\\"
  else if c = '\x08' then "\\b"
  else if c = '\x0c' then "\\f"
  else if c = '\n' then "\\n"
  else if c = '\r' then "\\r"
  else if c = '\t' then "\\t"
  else if c.toNat < 0x20 then
    "\\u00" ++ String.ofList [Nat.digitChar (c.toNat / 16), Nat.digitChar (c.toNat % 16)]
  else String.singleton c

/-- A string literal. -/
def quote (s : String) : String :=
  "\"" ++ String.ofList (s.toList.flatMap fun c => (escapeChar c).toList) ++ "\""

/-- The pieces with commas between. -/
def commas : List String → String
  | [] => ""
  | [s] => s
  | s :: t :: ts => s ++ "," ++ commas (t :: ts)

mutual

/-- The compact text of a document (`serde_json::to_string`). -/
def render : Json → String
  | .null => "null"
  | .bool true => "true"
  | .bool false => "false"
  | .num n => toString n
  | .float t => t
  | .str s => quote s
  | .arr xs => "[" ++ commas (renderList xs) ++ "]"
  | .obj fs => "\x7b" ++ commas (renderFields fs) ++ "\x7d"

/-- The texts of the elements. -/
def renderList : List Json → List String
  | [] => []
  | x :: xs => x.render :: renderList xs

/-- The texts of the members. -/
def renderFields : List (String × Json) → List String
  | [] => []
  | (k, v) :: fs => (quote k ++ ":" ++ v.render) :: renderFields fs

end

/-- The length of the text in bytes. -/
def size (j : Json) : ℕ := j.render.utf8ByteSize

theorem le_size_commas {s : String} : ∀ {l : List String}, s ∈ l →
    s.utf8ByteSize ≤ (commas l).utf8ByteSize
  | [t], h => by
    rw [List.mem_singleton.1 h, commas]
  | t :: u :: l, h => by
    simp only [commas, String.utf8ByteSize_append]
    rcases List.mem_cons.1 h with rfl | h
    · omega
    · have := le_size_commas h
      omega

theorem mem_renderFields {k : String} {v : Json} : ∀ {fs : List (String × Json)}, (k, v) ∈ fs →
    quote k ++ ":" ++ v.render ∈ renderFields fs
  | (k', v') :: fs, h => by
    rw [renderFields]
    rcases List.mem_cons.1 h with h | h
    · cases h
      exact List.mem_cons_self
    · exact List.mem_cons_of_mem _ (mem_renderFields h)

/-- The text of an object is at least as long as the text of each member. -/
theorem size_le_of_mem {k : String} {v : Json} {fs : List (String × Json)} (h : (k, v) ∈ fs) :
    v.size ≤ (Json.obj fs).size := by
  have := le_size_commas (mem_renderFields h)
  simp only [size, render, String.utf8ByteSize_append] at this ⊢
  omega

theorem le_size_escapeChar (c : Char) : c.utf8Size ≤ (escapeChar c).utf8ByteSize := by
  unfold escapeChar
  split_ifs with h h h h h h h h
  all_goals first | (subst h; decide) | skip
  · have : c.utf8Size = 1 := Char.utf8Size_eq_one_iff.2 (by
      rw [UInt32.le_iff_toNat_le]
      exact h.le.trans (by decide))
    rw [this, String.utf8ByteSize_append]
    exact le_add_right (by decide)
  · simp

theorem le_size_escape (l : List Char) : (String.ofList l).utf8ByteSize ≤
    (String.ofList (l.flatMap fun c => (escapeChar c).toList)).utf8ByteSize := by
  induction l with
  | nil => simp
  | cons c l ih =>
    have := le_size_escapeChar c
    rw [List.flatMap_cons, String.ofList_append, String.utf8ByteSize_append, String.ofList_toList]
    rw [Text.size_ofList] at ih ⊢
    rw [List.map_cons, List.sum_cons]
    omega

/-- The text of a string is at least as long as the string with its quotes. -/
theorem le_size_str (s : String) : s.utf8ByteSize + 2 ≤ (Json.str s).size := by
  have := le_size_escape s.toList
  rw [String.ofList_toList] at this
  have hq : ("\"").utf8ByteSize = 1 := rfl
  simp only [size, render, quote, String.utf8ByteSize_append, hq]
  omega

theorem size_commas_le : ∀ l : List String,
    (commas l).utf8ByteSize ≤ (l.map fun s => s.utf8ByteSize + 1).sum
  | [] => le_refl 0
  | [s] => by simp [commas]
  | s :: t :: l => by
    have := size_commas_le (t :: l)
    simp only [commas, String.utf8ByteSize_append, List.map_cons, List.sum_cons] at this ⊢
    have hc : (",").utf8ByteSize = 1 := rfl
    omega

theorem size_escapeChar_le (c : Char) : (escapeChar c).utf8ByteSize ≤ 6 * c.utf8Size := by
  have hpos := c.utf8Size_pos
  have hle := c.utf8Size_le_four
  have hd : ∀ n < 16, (Nat.digitChar n).utf8Size = 1 := by decide
  unfold escapeChar
  split_ifs with h h h h h h h h
  all_goals first | (subst h; decide) | skip
  · have h₁ : (Nat.digitChar (c.toNat / 16)).utf8Size = 1 := hd _ (by omega)
    have h₂ : (Nat.digitChar (c.toNat % 16)).utf8Size = 1 := hd _ (by omega)
    have hu : ("\\u00").utf8ByteSize = 4 := by decide
    rw [String.utf8ByteSize_append, hu, Text.size_ofList, List.map_cons, List.map_cons, h₁, h₂]
    simp only [List.map_nil, List.sum_cons, List.sum_nil]
    omega
  · rw [String.utf8ByteSize_singleton]
    omega

theorem size_escape_le (l : List Char) :
    (String.ofList (l.flatMap fun c => (escapeChar c).toList)).utf8ByteSize ≤
      6 * (String.ofList l).utf8ByteSize := by
  induction l with
  | nil => simp
  | cons c l ih =>
    have := size_escapeChar_le c
    rw [List.flatMap_cons, String.ofList_append, String.utf8ByteSize_append, String.ofList_toList]
    rw [Text.size_ofList l] at ih
    rw [Text.size_ofList (c :: l), List.map_cons, List.sum_cons]
    omega

/-- A string literal is at most six times as long as the string, and two quotes. -/
theorem size_quote_le (s : String) : (quote s).utf8ByteSize ≤ 6 * s.utf8ByteSize + 2 := by
  have := size_escape_le s.toList
  rw [String.ofList_toList] at this
  have hq : ("\"").utf8ByteSize = 1 := rfl
  simp only [quote, String.utf8ByteSize_append, hq]
  omega

mutual

/-- An upper bound of `size`, from the lengths of the strings. -/
def sizeBound : Json → ℕ
  | .null => 4
  | .bool _ => 5
  | .num n => (toString n).utf8ByteSize
  | .float t => t.utf8ByteSize
  | .str s => 6 * s.utf8ByteSize + 2
  | .arr xs => sizeBoundList xs + 2
  | .obj fs => sizeBoundFields fs + 2

/-- The bound for the elements. -/
def sizeBoundList : List Json → ℕ
  | [] => 0
  | x :: xs => x.sizeBound + 1 + sizeBoundList xs

/-- The bound for the members. -/
def sizeBoundFields : List (String × Json) → ℕ
  | [] => 0
  | (k, v) :: fs => 6 * k.utf8ByteSize + v.sizeBound + 4 + sizeBoundFields fs

end

mutual

theorem size_le_sizeBound : ∀ j : Json, j.size ≤ j.sizeBound
  | .null | .bool true | .bool false => by decide
  | .num _ | .float _ => le_refl _
  | .str s => size_quote_le s
  | .arr xs => by
    have := (size_commas_le (renderList xs)).trans (sum_renderList_le xs)
    simp only [size, render, sizeBound, String.utf8ByteSize_append]
    have h₁ : ("[").utf8ByteSize = 1 := rfl
    have h₂ : ("]").utf8ByteSize = 1 := rfl
    omega
  | .obj fs => by
    have := (size_commas_le (renderFields fs)).trans (sum_renderFields_le fs)
    simp only [size, render, sizeBound, String.utf8ByteSize_append]
    have h₁ : ("\x7b").utf8ByteSize = 1 := rfl
    have h₂ : ("\x7d").utf8ByteSize = 1 := rfl
    omega

theorem sum_renderList_le : ∀ xs : List Json,
    ((renderList xs).map fun s => s.utf8ByteSize + 1).sum ≤ sizeBoundList xs
  | [] => le_refl 0
  | x :: xs => by
    have h₁ := size_le_sizeBound x
    have h₂ := sum_renderList_le xs
    simp only [size] at h₁
    simp only [renderList, sizeBoundList, List.map_cons, List.sum_cons]
    omega

theorem sum_renderFields_le : ∀ fs : List (String × Json),
    ((renderFields fs).map fun s => s.utf8ByteSize + 1).sum ≤ sizeBoundFields fs
  | [] => le_refl 0
  | (k, v) :: fs => by
    have h₁ := size_le_sizeBound v
    have h₂ := sum_renderFields_le fs
    have h₃ := size_quote_le k
    have hc : (":").utf8ByteSize = 1 := rfl
    simp only [size] at h₁
    simp only [renderFields, sizeBoundFields, List.map_cons, List.sum_cons,
      String.utf8ByteSize_append]
    omega

end

/-! ## Structs -/

/-- The first member of a name. -/
def member {α : Type} (k : String) : List (String × α) → Option α
  | [] => none
  | (k', v) :: fs => if k = k' then some v else member k fs

/-- The members that are present. -/
def present : List (String × Option Json) → List (String × Json)
  | [] => []
  | (k, some j) :: fs => (k, j) :: present fs
  | (_, none) :: fs => present fs

/-- The object of the members that are present (a derived `Serialize` with
    `skip_serializing_if = "Option::is_none"`). -/
def ofFields (fs : List (String × Option Json)) : Json := .obj (present fs)

/-- The members of a struct with the fields `known`, as a derived `Deserialize`
    reads them: from an object without repeated known members, without unknown
    ones if `deny`, or from an array, by position. -/
def readFields (deny : Bool) (known : List String) : Json → Option (List (String × Json))
  | .obj fs =>
    if (deny && fs.any fun p => !known.contains p.1) ||
        !decide ((fs.map Prod.fst).filter known.contains).Nodup then none
    else some (fs.filter fun p => known.contains p.1)
  | .arr xs => if xs.length ≤ known.length then some (known.zip xs) else none
  | _ => none

/-- A field without a default. -/
def required {α : Type} (fs : List (String × Json)) (k : String) (read : Json → Option α) :
    Option α :=
  (member k fs).bind read

/-- A field with a default. -/
def withDefault {α : Type} (fs : List (String × Json)) (k : String) (d : α)
    (read : Json → Option α) : Option α :=
  match member k fs with
  | none => some d
  | some j => read j

/-- An `Option`: a missing member and `null` are read as `None`. -/
def orNone {α : Type} (read : Json → Option α) : Option Json → Option (Option α)
  | none | some .null => some none
  | some j => (read j).map some

/-- An `Option` field with `default`. -/
def nullable {α : Type} (fs : List (String × Json)) (k : String) (read : Json → Option α) :
    Option (Option α) :=
  orNone read (member k fs)

theorem mem_present {k : String} {j : Json} : ∀ {fs : List (String × Option Json)},
    (k, some j) ∈ fs → (k, j) ∈ present fs
  | (k', some j') :: fs, h => by
    rcases List.mem_cons.1 h with h | h
    · cases h
      exact List.mem_cons_self
    · exact List.mem_cons_of_mem _ (mem_present h)
  | (_, none) :: fs, h => by
    rcases List.mem_cons.1 h with h | h
    · cases h
    · rw [present]
      exact mem_present h

/-- A struct is at least as long as each of its fields. -/
theorem size_le_ofFields {k : String} {j : Json} {fs : List (String × Option Json)}
    (h : (k, some j) ∈ fs) : j.size ≤ (ofFields fs).size :=
  size_le_of_mem (mem_present h)

theorem keys_present_sublist : ∀ fs : List (String × Option Json),
    ((present fs).map Prod.fst).Sublist (fs.map Prod.fst)
  | [] => .slnil
  | (_, some _) :: fs => (keys_present_sublist fs).cons_cons _
  | (_, none) :: fs => (keys_present_sublist fs).cons _

/-- What a struct writes is read back. -/
theorem readFields_ofFields {deny : Bool} {known : List String} {fs : List (String × Option Json)}
    (hk : fs.map Prod.fst = known) (hn : known.Nodup) :
    readFields deny known (ofFields fs) = some (present fs) := by
  subst hk
  have hs := keys_present_sublist fs
  have hmem : ∀ p ∈ present fs, p.1 ∈ fs.map Prod.fst :=
    fun p hp => hs.subset (List.mem_map_of_mem hp)
  have hall : (present fs).filter (fun p => (fs.map Prod.fst).contains p.1) = present fs :=
    List.filter_eq_self.2 fun p hp => by simpa using hmem p hp
  have hkeys : ((present fs).map Prod.fst).filter (fs.map Prod.fst).contains =
      (present fs).map Prod.fst :=
    List.filter_eq_self.2 fun k hk => by simpa using hs.subset hk
  have hany : (present fs).any (fun p => !(fs.map Prod.fst).contains p.1) = false := by
    rw [List.any_eq_false]
    exact fun p hp => by simpa using hmem p hp
  simp only [ofFields, readFields, hany, hkeys, hall, Bool.and_false, Bool.false_or,
    Bool.not_eq_true', decide_eq_false_iff_not, not_not.2 (hn.sublist hs), if_false]

theorem member_eq_none {α : Type} {k : String} : ∀ {fs : List (String × α)},
    k ∉ fs.map Prod.fst → member k fs = none
  | [], _ => rfl
  | (k', _) :: fs, h => by
    simp only [List.map_cons, List.mem_cons, not_or] at h
    rw [member, if_neg h.1, member_eq_none h.2]

/-- A member of a struct is read back as it was written. -/
theorem member_present {fs : List (String × Option Json)} (hn : (fs.map Prod.fst).Nodup)
    (k : String) : member k (present fs) = (member k fs).join := by
  induction fs with
  | nil => rfl
  | cons p fs ih =>
    obtain ⟨k', j⟩ := p
    rw [List.map_cons, List.nodup_cons] at hn
    by_cases hk : k = k'
    · subst hk
      cases j with
      | some j => simp [present, member]
      | none =>
        have := member_eq_none fun h => hn.1 ((keys_present_sublist fs).subset h)
        simpa [present, member] using this
    · cases j <;> simp [present, member, hk, ih hn.2]

/-! ## Members in another order -/

/-- Where the names are not repeated, a member is found by its name. -/
theorem member_eq_some_iff {α : Type} {k : String} {v : α} : ∀ {fs : List (String × α)},
    (fs.map Prod.fst).Nodup → (member k fs = some v ↔ (k, v) ∈ fs)
  | [], _ => by simp [member]
  | (k', v') :: fs, hn => by
    rw [List.map_cons, List.nodup_cons] at hn
    rw [member, List.mem_cons, Prod.mk.injEq]
    by_cases hk : k = k'
    · subst hk
      have hnot : (k, v) ∉ fs := fun hm => hn.1 (List.mem_map.2 ⟨_, hm, rfl⟩)
      simp [hnot, eq_comm]
    · simp [hk, member_eq_some_iff hn.2]

/-- The order of the members does not matter. -/
theorem member_of_perm {α : Type} {fs gs : List (String × α)} (h : fs.Perm gs)
    (hn : (gs.map Prod.fst).Nodup) (k : String) : member k fs = member k gs := by
  have hn' : (fs.map Prod.fst).Nodup := (h.map Prod.fst).nodup_iff.2 hn
  ext v
  rw [member_eq_some_iff hn', member_eq_some_iff hn, h.mem_iff]

/-- A struct is read from its members in any order, and among unknown ones where
    these are not denied. -/
theorem readFields_of_perm {known : List String} {gs : List (String × Option Json)}
    {fs extra : List (String × Json)} (h : fs.Perm (present gs ++ extra))
    (hk : gs.map Prod.fst = known) (hn : known.Nodup) (hx : ∀ p ∈ extra, p.1 ∉ known) :
    ∃ ms, readFields false known (.obj fs) = some ms ∧
      ∀ k, member k ms = (member k gs).join := by
  subst hk
  have hs := keys_present_sublist gs
  have hkeep : (present gs ++ extra).filter (fun p => (gs.map Prod.fst).contains p.1) =
      present gs := by
    rw [List.filter_append, List.filter_eq_self.2, List.filter_eq_nil_iff.2, List.append_nil]
    · exact fun p hp => by simpa using hx p hp
    · exact fun p hp => by simpa using hs.subset (List.mem_map_of_mem hp)
  have hperm : (fs.filter fun p => (gs.map Prod.fst).contains p.1).Perm (present gs) :=
    hkeep ▸ h.filter _
  have hnd : ((fs.map Prod.fst).filter (gs.map Prod.fst).contains).Nodup := by
    rw [List.filter_map]
    exact (hperm.map Prod.fst).nodup_iff.2 (hn.sublist hs)
  refine ⟨fs.filter fun p => (gs.map Prod.fst).contains p.1, ?_, fun k => ?_⟩
  · simp only [readFields, Bool.false_and, Bool.false_or, Bool.not_eq_true',
      decide_eq_false_iff_not, not_not.2 hnd, if_false]
  · rw [member_of_perm hperm (hn.sublist hs), member_present hn]

/-! ## Scalars -/

/-- A string. -/
def readStr : Json → Option String
  | .str s => some s
  | _ => none

/-- An `i64`. -/
def readInt64 : Json → Option Int64
  | .num n =>
    if Int64.minValue.toInt ≤ n ∧ n ≤ Int64.maxValue.toInt then some (Int64.ofInt n) else none
  | _ => none

/-- A `u64`. -/
def readUInt64 : Json → Option UInt64
  | .num n => if 0 ≤ n ∧ n ≤ 18446744073709551615 then some (UInt64.ofNat n.toNat) else none
  | _ => none

/-- A `usize`, of 64 bits. -/
def readUSize (j : Json) : Option ℕ := (readUInt64 j).map UInt64.toNat

/-- A `bool`. -/
def readBool : Json → Option Bool
  | .bool b => some b
  | _ => none

/-- A `Vec`. -/
def readVec {α : Type} (read : Json → Option α) : Json → Option (List α)
  | .arr xs => xs.mapM read
  | _ => none

/-- A unit variant is its name, or an object with its name and `null`. -/
def readVariant {α : Type} (ofName : String → Option α) : Json → Option α
  | .str s => ofName s
  | .obj [(s, .null)] => ofName s
  | _ => none

/-- A `serde_json::Value`. -/
def readValue (R : ValueReader) (j : Json) : Option Value := (R.resolve j).map Value.ofJson

/-- A `BTreeMap<String, String>`: the last member of a name wins. -/
def readMap : Json → Option (Std.ExtTreeMap String String)
  | .obj fs => (fs.mapM fun p => (readStr p.2).map (p.1, ·)).map fun l => .ofList l
  | _ => none

/-- A map, in key order. -/
def ofMap (m : Std.ExtTreeMap String String) : Json := .obj (m.toList.map fun p => (p.1, .str p.2))

@[simp] theorem readStr_str (s : String) : readStr (.str s) = some s := rfl

@[simp] theorem readInt64_num (n : Int64) : readInt64 (.num n.toInt) = some n := by
  have h₁ := Int64.minValue_le_toInt n
  have h₂ := Int64.toInt_le n
  rw [readInt64, if_pos ⟨h₁, h₂⟩, Int64.ofInt_toInt]

@[simp] theorem readUInt64_num (n : UInt64) : readUInt64 (.num n.toNat) = some n := by
  have := n.toNat_lt
  have h : (0 : ℤ) ≤ n.toNat ∧ (n.toNat : ℤ) ≤ 18446744073709551615 := by omega
  rw [readUInt64, if_pos h, Int.toNat_natCast, UInt64.ofNat_toNat]

@[simp] theorem readUSize_num {n : ℕ} (h : n < 2 ^ 64) : readUSize (.num n) = some n := by
  have hn : (UInt64.ofNat n).toNat = n := UInt64.toNat_ofNat_of_lt' h
  have := readUInt64_num (UInt64.ofNat n)
  rw [hn] at this
  rw [readUSize, this, Option.map_some, hn]

@[simp] theorem readBool_bool (b : Bool) : readBool (.bool b) = some b := rfl

theorem readVec_map {α : Type} {read : Json → Option α} {write : α → Json}
    (h : ∀ a, read (write a) = some a) (l : List α) :
    readVec read (.arr (l.map write)) = some l := by
  rw [readVec]
  induction l with
  | nil => rfl
  | cons a l ih => simp [h, ih]

@[simp] theorem orNone_str (o : Option String) : orNone readStr (o.map .str) = some o := by
  cases o <;> simp [orNone]

theorem readValue_of_verbatim (R : ValueReader) {v : Value} (h : v.json.Verbatim) :
    readValue R v.json = some v := by
  rw [readValue, R.resolve_of_verbatim _ h, Option.map_some, Value.ofJson_json]

/-- A raw value is read as the value of its text. -/
theorem readValue_raw (R : ValueReader) {fs : List (String × Json)} (h : IsRaw fs) :
    readValue R (.obj fs) = (ValueReader.rawText fs).bind R.fromStr := by
  rw [readValue, ValueReader.resolve, if_pos h, Option.map_map]
  simp [Function.comp_def]

/-- `Some(null)` is read back as `None`. -/
theorem orNone_value (R : ValueReader) {o : Option Value}
    (h : ∀ v, o = some v → v.json ≠ .null ∧ v.json.Verbatim) :
    orNone (readValue R) (o.map Value.json) = some o := by
  cases o with
  | none => rfl
  | some v =>
    obtain ⟨hnull, hverbatim⟩ := h v rfl
    rw [Option.map_some, orNone, readValue_of_verbatim R hverbatim, Option.map_some]
    simpa using hnull

@[simp] theorem readMap_ofMap (m : Std.ExtTreeMap String String) : readMap (ofMap m) = some m := by
  have h : ∀ l : List (String × String),
      (l.map fun p => (p.1, str p.2)).mapM (fun p => (readStr p.2).map (p.1, ·)) = some l := by
    intro l
    induction l with
    | nil => rfl
    | cons p l ih => simp [ih]
  rw [ofMap, readMap, h, Option.map_some, ofList_toList]

end Json
