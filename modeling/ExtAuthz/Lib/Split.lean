/-
  Split — a list cut at a separator, and what lies below it in the hierarchy of
  the pieces.

  `Below a l m` compares pieces: those of `l` come first in `m`, where a
  separator at the end of `l` asks for at least one more piece.  On the lists
  themselves it is a test for a prefix (`below_iff`), and it is transitive.
-/
import Mathlib

namespace Split

variable {α : Type}

theorem intercalate_append (sep : List α) {xs ys : List (List α)} (hx : xs ≠ []) (hy : ys ≠ []) :
    sep.intercalate (xs ++ ys) = sep.intercalate xs ++ (sep ++ sep.intercalate ys) := by
  induction xs with
  | nil => exact absurd rfl hx
  | cons x xs ih =>
    cases xs with
    | nil => rw [List.singleton_append, List.intercalate_cons_of_ne_nil hy,
        List.intercalate_singleton, List.append_assoc]
    | cons x' xs =>
      have hne : x' :: xs ++ ys ≠ [] := List.cons_ne_nil _ _
      rw [List.cons_append, List.intercalate_cons_of_ne_nil hne, ih (List.cons_ne_nil _ _),
        List.intercalate_cons_cons]
      simp only [List.append_assoc]

variable [DecidableEq α] {a : α} {l m n : List α}

theorem splitOn_concat (l : List α) : (l ++ [a]).splitOn a = l.splitOn a ++ [[]] := by
  rw [List.splitOn_append_cons_self, List.splitOn_nil]

theorem length_splitOn_pos (a : α) (l : List α) : 0 < (l.splitOn a).length :=
  List.length_pos_iff.2 (List.splitOn_ne_nil a l)

/-- The pieces of `l` come first in `m` when `l` does, and ends there or is
    followed by a separator. -/
theorem splitOn_prefix_iff :
    l.splitOn a <+: m.splitOn a ↔ m = l ∨ l ++ [a] <+: m := by
  constructor
  · rintro ⟨r, hr⟩
    have hm : [a].intercalate (m.splitOn a) = m := List.intercalate_splitOn a
    rw [← hr] at hm
    cases r with
    | nil =>
      rw [List.append_nil, List.intercalate_splitOn] at hm
      exact .inl hm.symm
    | cons s r =>
      rw [intercalate_append _ (List.splitOn_ne_nil a l) (List.cons_ne_nil s r),
        List.intercalate_splitOn] at hm
      exact .inr ⟨_, by rw [← hm, List.append_assoc]⟩
  · rintro (rfl | ⟨r, rfl⟩)
    · exact List.prefix_rfl
    · rw [List.append_assoc, List.singleton_append, List.splitOn_append_cons_self]
      exact List.prefix_append _ _

/-! ## Below a list -/

/-- The pieces that everything below `l` starts with: all of them, but for the
    empty one after a separator at the end. -/
def base (a : α) (l : List α) : List (List α) :=
  if l.getLast? = some a then (l.splitOn a).dropLast else l.splitOn a

/-- `m` is below `l`. -/
def Below (a : α) (l m : List α) : Prop :=
  base a l <+: m.splitOn a ∧ (l.splitOn a).length ≤ (m.splitOn a).length

/-- A list with a separator at the end is a prefix of what is below it. -/
theorem below_of_getLast (h : l.getLast? = some a) : Below a l m ↔ l <+: m := by
  obtain ⟨x, rfl⟩ := List.getLast?_eq_some_iff.1 h
  rw [Below, base, if_pos h, splitOn_concat, List.dropLast_concat, List.length_append,
    List.length_singleton, splitOn_prefix_iff]
  constructor
  · rintro ⟨rfl | hp, hlen⟩
    · omega
    · exact hp
  · intro hp
    refine ⟨.inr hp, ?_⟩
    obtain ⟨r, rfl⟩ := hp
    have hr := length_splitOn_pos a r
    rw [List.append_assoc, List.singleton_append, List.splitOn_append_cons_self,
      List.length_append]
    omega

/-- Any other one is followed by a separator. -/
theorem below_of_not_getLast (h : l.getLast? ≠ some a) :
    Below a l m ↔ m = l ∨ l ++ [a] <+: m := by
  rw [Below, base, if_neg h, ← splitOn_prefix_iff]
  exact and_iff_left_of_imp fun hp => hp.length_le

theorem below_iff : Below a l m ↔
    if l.getLast? = some a then l <+: m else m = l ∨ l ++ [a] <+: m := by
  split_ifs with h
  · exact below_of_getLast h
  · exact below_of_not_getLast h

theorem Below.isPrefix (h : Below a l m) : l <+: m := by
  rw [below_iff] at h
  split_ifs at h
  · exact h
  · rcases h with rfl | h
    · exact List.prefix_rfl
    · exact (List.prefix_append l [a]).trans h

theorem Below.trans (h : Below a l m) (h' : Below a m n) : Below a l n := by
  rw [below_iff] at h ⊢
  split_ifs at h ⊢
  · exact h.trans h'.isPrefix
  · rcases h with rfl | h
    · rwa [below_of_not_getLast ‹_›] at h'
    · exact .inr (h.trans h'.isPrefix)

/-- Nothing that only extends the last piece is below. -/
theorem not_below_append (h : l.getLast? ≠ some a) {x : List α} (hx : x ≠ [])
    (hh : x.head? ≠ some a) : ¬ Below a l (l ++ x) := by
  rw [below_of_not_getLast h]
  rintro (he | hp)
  · exact hx (List.append_right_eq_self.1 he)
  · rw [List.prefix_append_right_inj] at hp
    obtain ⟨r, rfl⟩ := hp
    exact hh rfl

end Split
