/-
  Sequential — a shared object used by one caller at a time.

  `Object.after` is the state after some calls, each run as one atomic step, and
  `Object.answers` are the answers on the way.  `after_invariant` and
  `after_congr` are the induction rules, for one history and for two; a call
  that leaves the state as it is can be erased from a history
  (`after_erase`, `answers_erase`).

  A handler that is left alone makes its call as one such step (`exists_alone`).
-/
import ExtAuthz.Lib.Interleave

namespace Interleave

variable {σ Call Op Ret Ans : Type} (O : Object σ Call Op Ret Ans)

namespace Object

/-- The state after the calls `cs`, one after the other. -/
def after (s : σ) (cs : List Call) : σ := cs.foldl (fun s c => (O.run c s).2) s

/-- The answers to the calls. -/
def answers : σ → List Call → List Ans
  | _, [] => []
  | s, c :: cs => (O.run c s).1 :: answers (O.run c s).2 cs

@[simp] theorem after_nil (s : σ) : O.after s [] = s := rfl

@[simp] theorem after_cons (s : σ) (c : Call) (cs : List Call) :
    O.after s (c :: cs) = O.after (O.run c s).2 cs := rfl

@[simp] theorem after_append (s : σ) (cs ds : List Call) :
    O.after s (cs ++ ds) = O.after (O.after s cs) ds :=
  List.foldl_append

theorem answers_append (s : σ) (cs ds : List Call) :
    O.answers s (cs ++ ds) = O.answers s cs ++ O.answers (O.after s cs) ds := by
  induction cs generalizing s with
  | nil => rfl
  | cons c cs ih => rw [List.cons_append, answers, ih, answers, after_cons, List.cons_append]

variable {O}

/-- What every call keeps, in the state that it meets, holds after a history. -/
theorem after_invariant {P : List Call → σ → Prop} {s : σ} (h₀ : P [] s)
    (hs : ∀ cs c, P cs (O.after s cs) → P (cs ++ [c]) (O.run c (O.after s cs)).2)
    (cs : List Call) : P cs (O.after s cs) := by
  induction cs using List.reverseRecOn with
  | nil => exact h₀
  | append_singleton cs c ih =>
    rw [after_append]
    exact hs cs c ih

/-- What every call of a history keeps of two states holds of them after it. -/
theorem after_congr {R : σ → σ → Prop} {cs : List Call}
    (hs : ∀ c ∈ cs, ∀ s t, R s t → R (O.run c s).2 (O.run c t).2) {s t : σ} (h : R s t) :
    R (O.after s cs) (O.after t cs) := by
  induction cs generalizing s t with
  | nil => exact h
  | cons c cs ih =>
    rw [List.forall_mem_cons] at hs
    exact ih hs.2 (hs.1 s t h)

section
variable {s : σ} {cs : List Call} {c : Call}

/-- A call without an effect can be erased. -/
theorem after_erase (h : (O.run c (O.after s cs)).2 = O.after s cs) (ds : List Call) :
    O.after s (cs ++ c :: ds) = O.after s (cs ++ ds) := by
  rw [after_append, after_cons, h, after_append]

/-- The other calls get the same answers without it. -/
theorem answers_erase (h : (O.run c (O.after s cs)).2 = O.after s cs) (ds : List Call) :
    O.answers s (cs ++ c :: ds) =
        O.answers s cs ++ (O.run c (O.after s cs)).1 :: O.answers (O.after s cs) ds ∧
      O.answers s (cs ++ ds) = O.answers s cs ++ O.answers (O.after s cs) ds := by
  rw [answers_append, answers_append, answers, h]
  exact ⟨rfl, rfl⟩

end

end Object

/-! ## Handlers without interruption -/

section
variable {O} {C : Config σ Call Op Ret Ans} {i : ℕ} {c : Call}

/-- The handler `i` is left alone, and nothing else happens: it answers as its
    program does. -/
structure Alone (O : Object σ Call Op Ret Ans) (C : Config σ Call Op Ret Ans) (i : ℕ) (c : Call)
    (r : Ans × σ) (es : List (Event Call Op Ret Ans)) (C' : Config σ Call Op Ret Ans) : Prop where
  run : Run O C es C'
  answer : C'.threads i = some ⟨c, .done r.1, true⟩
  shared : C'.shared = r.2
  frame : ∀ j, j ≠ i → C'.threads j = C.threads j

theorem exists_alone_of_threads {p : Prog Op Ret Ans} (h : C.threads i = some ⟨c, p, false⟩) :
    ∃ es C', Alone O C i c (p.run O.apply C.shared) es C' := by
  induction p generalizing C with
  | done a =>
    exact ⟨_, _, Run.nil.snoc (.finish i h), Config.set_threads_self _ _ _ _, rfl,
      fun j hj => Config.set_threads_ne _ _ _ _ hj⟩
  | op o next ih =>
    have hstep := Step.step (O := O) i h
    obtain ⟨es, C', halone⟩ := ih _ (Config.set_threads_self C i
      ⟨c, next (O.apply o C.shared).1, false⟩ (O.apply o C.shared).2)
    refine ⟨_, C', (Run.nil.snoc hstep).append halone.run, halone.answer, halone.shared, ?_⟩
    intro j hj
    rw [halone.frame j hj, Config.set_threads_ne _ _ _ _ hj]

/-- A handler that runs alone makes its call as one atomic step. -/
theorem exists_alone (O : Object σ Call Op Ret Ans) (c : Call) (h : C.threads i = none) :
    ∃ es C', Alone O C i c (O.run c C.shared) es C' := by
  obtain ⟨es, C', halone⟩ := exists_alone_of_threads (O := O)
    (Config.set_threads_self C i ⟨c, O.body c, false⟩ C.shared)
  refine ⟨_, C', (Run.nil.snoc (.start i c h)).append halone.run, halone.answer, halone.shared, ?_⟩
  intro j hj
  rw [halone.frame j hj, Config.set_threads_ne _ _ _ _ hj]

end

end Interleave
