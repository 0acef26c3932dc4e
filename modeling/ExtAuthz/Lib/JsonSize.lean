/-
  JsonSize — bounds on the size of a struct as JSON text.

  The bound of an object is split into its member names, which a struct fixes
  (`namesSize`), and the bounds of its values.  Numbers of 64 bits have at most
  20 characters (`size_toString_le`), and a map is bounded by what was inserted
  into it (`entriesSize_insert_le`).
-/
import ExtAuthz.Lib.Json

namespace Json

open Text

/-! ## Numbers -/

theorem utf8Size_of_isDigit {c : Char} (h : c.isDigit = true) : c.utf8Size = 1 := by
  have hc : c.val ≤ 57 := by
    simp only [Char.isDigit, Bool.and_eq_true, decide_eq_true_eq] at h
    exact h.2
  have hle : c.val ≤ 127 := UInt32.le_trans hc (by decide)
  simp [Char.utf8Size, hle]

/-- A number below `10 ^ k` has at most `k` digits. -/
theorem size_repr_le {n k : ℕ} (hk : 0 < k) (h : n < 10 ^ k) : n.repr.utf8ByteSize ≤ k := by
  have hlen := (Nat.length_toDigits_le_iff (by decide) hk).2 h
  have hsize : ((Nat.toDigits 10 n).map Char.utf8Size).sum = (Nat.toDigits 10 n).length := by
    have hone : (Nat.toDigits 10 n).map Char.utf8Size = (Nat.toDigits 10 n).map fun _ => 1 :=
      List.map_congr_left fun c hc =>
        utf8Size_of_isDigit (Nat.isDigit_of_mem_toDigits (by decide) (by decide) hc)
    simp [hone]
  rw [Nat.repr_eq_ofList_toDigits, size_ofList, hsize]
  exact hlen

theorem size_toString_le {n : ℤ} {k : ℕ} (hk : 0 < k) (h : n.natAbs < 10 ^ k) :
    (toString n).utf8ByteSize ≤ k + 1 := by
  have hr := size_repr_le hk h
  have hm : ("-").utf8ByteSize = 1 := rfl
  rw [Int.toString_eq_repr, Int.repr_eq_if]
  split
  · have habs : n.natAbs = n.toNat := by omega
    rw [← habs]
    omega
  · have habs : n.natAbs = (-n).toNat := by omega
    rw [String.utf8ByteSize_append, hm, ← habs]
    omega

/-! ## Structs -/

/-- What the member names of a struct add to its bound. -/
def namesSize (names : List String) : ℕ := (names.map fun k => 6 * k.utf8ByteSize + 4).sum

/-- The bound of a member that may be absent. -/
def optionBound (o : Option Json) : ℕ := (o.map sizeBound).getD 0

/-- A number of 64 bits is at most 21 characters long. -/
theorem optionBound_int64 (n : Int64) : optionBound (some (.num n.toInt)) ≤ 21 := by
  have h₁ := Int64.minValue_le_toInt n
  have h₂ := Int64.toInt_le n
  have hmin : Int64.minValue.toInt = -9223372036854775808 := by decide
  have hmax : Int64.maxValue.toInt = 9223372036854775807 := by decide
  refine size_toString_le (k := 20) (by decide) ?_
  omega

theorem sizeBound_present_le (fs : List (String × Option Json)) :
    sizeBoundFields (present fs) ≤
      namesSize (fs.map Prod.fst) + (fs.map fun f => optionBound f.2).sum := by
  induction fs with
  | nil => simp [present, sizeBoundFields]
  | cons f fs ih =>
    obtain ⟨k, o⟩ := f
    simp only [namesSize, List.map_cons, List.sum_cons] at ih ⊢
    cases o with
    | none =>
      have hb : optionBound none = 0 := rfl
      simp only [present, hb]
      omega
    | some j =>
      have hb : optionBound (some j) = j.sizeBound := rfl
      simp only [present, sizeBoundFields, hb]
      omega

/-- A struct is bounded by its member names and its values. -/
theorem sizeBound_ofFields_le (fs : List (String × Option Json)) :
    (ofFields fs).sizeBound ≤
      namesSize (fs.map Prod.fst) + (fs.map fun f => optionBound f.2).sum + 2 := by
  have := sizeBound_present_le fs
  rw [ofFields, sizeBound]
  omega

/-- The length of a text that may be absent. -/
def optionSize (o : Option String) : ℕ := (o.map String.utf8ByteSize).getD 0

theorem optionBound_str (s : String) : optionBound (some (.str s)) = 6 * s.utf8ByteSize + 2 := rfl

theorem optionBound_map_str (o : Option String) :
    optionBound (o.map .str) ≤ 6 * optionSize o + 2 := by
  cases o <;> simp [optionBound, optionSize, sizeBound]

/-! ## Maps -/

/-- The length of the entries of a map. -/
def entriesSize (m : Std.ExtTreeMap String String) : ℕ :=
  (m.toList.map fun p => p.1.utf8ByteSize + p.2.utf8ByteSize + 1).sum

theorem sizeBound_ofMap (m : Std.ExtTreeMap String String) :
    (ofMap m).sizeBound = 6 * entriesSize m + 2 := by
  rw [ofMap, sizeBound, entriesSize]
  congr 1
  induction m.toList with
  | nil => rfl
  | cons p l ih =>
    simp only [List.map_cons, sizeBoundFields, sizeBound, ih, List.sum_cons]
    ring

@[simp] theorem entriesSize_empty : entriesSize ∅ = 0 := rfl

/-- An entry is new, or was in the map before. -/
theorem toList_insert_subset (m : Std.ExtTreeMap String String) (k v : String) :
    (m.insert k v).toList ⊆ (k, v) :: m.toList := by
  rintro ⟨k', v'⟩ h
  rw [Std.ExtTreeMap.mem_toList_iff_getElem?_eq_some, Std.ExtTreeMap.getElem?_insert] at h
  split at h
  · rename_i hk
    cases h
    cases Std.LawfulEqCmp.compare_eq_iff_eq.1 hk
    exact List.mem_cons_self
  · exact List.mem_cons_of_mem _ (Std.ExtTreeMap.mem_toList_iff_getElem?_eq_some.2 h)

theorem entriesSize_insert_le (m : Std.ExtTreeMap String String) (k v : String) :
    entriesSize (m.insert k v) ≤ entriesSize m + (k.utf8ByteSize + v.utf8ByteSize + 1) := by
  have hn : (m.insert k v).toList.Nodup := by
    refine (Std.ExtTreeMap.distinct_keys_toList (t := m.insert k v)).imp ?_
    rintro a b hab rfl
    exact hab Std.ReflCmp.compare_self
  obtain ⟨l, hp, hl⟩ := List.subperm_of_subset hn (toList_insert_subset m k v)
  rw [entriesSize, ← (hp.map _).sum_eq]
  refine ((hl.map _).sum_le_sum (by simp)).trans_eq ?_
  rw [List.map_cons, List.sum_cons, entriesSize]
  ring

end Json
