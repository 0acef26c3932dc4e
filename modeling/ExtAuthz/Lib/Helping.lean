/-
  Helping — linearization points in the steps of other handlers.

  `Run.linearization` looks for the point of a handler among its own events.
  Some handlers have none there: what they will answer is settled by a step of
  another handler while they wait.  Here a step is the point of a list of
  handlers (`Helping`), in the order of the list, as long as none of them has
  finished.  They take effect where they are listed, so the order of all the
  handlers is consistent with real time (`Effects.step`).
-/
import ExtAuthz.Lib.Sequential

namespace Interleave

variable {σ Call Op Ret Ans : Type} {O : Object σ Call Op Ret Ans}
  {es es' : List (Event Call Op Ret Ans)} {C₀ C C' F : Config σ Call Op Ret Ans}
  {e : Event Call Op Ret Ans}

/-! ## Steps and replays -/

/-- An operation is the next of its handler, which goes on with the reply. -/
theorem Step.op_inv {i : ℕ} {o : Op} {r : Ret} (h : Step O C (.step i o r) C') :
    ∃ c next, C.threads i = some ⟨c, .op o next, false⟩ ∧
      C'.threads i = some ⟨c, next (O.apply o C.shared).1, false⟩ := by
  cases h with
  | step _ ht => exact ⟨_, _, ht, Config.set_threads_self _ _ _ _⟩

theorem Replay.append {agree : Ans → Ans → Prop} {s s' s'' : σ} {is js : List ℕ}
    (h : Replay O C agree s is s') (h' : Replay O C agree s' js s'') :
    Replay O C agree s (is ++ js) s'' := by
  induction h with
  | nil => exact h'
  | cons hi ha _ ih => exact .cons hi ha (ih h')

/-- Calls that leave the state as it is, in any order. -/
theorem Replay.of_const {agree : Ans → Ans → Prop} {s : σ} {js : List ℕ}
    (h : ∀ j ∈ js, ∃ c a f, C.threads j = some ⟨c, .done a, f⟩ ∧ agree (O.run c s).1 a ∧
      (O.run c s).2 = s) : Replay O C agree s js s := by
  induction js with
  | nil => exact .nil s
  | cons j js ih =>
    obtain ⟨c, a, f, ht, ha, hs⟩ := h j List.mem_cons_self
    refine .cons ht ha ?_
    rw [hs]
    exact ih fun k hk => h k (List.mem_cons_of_mem _ hk)

theorem Replay.mono {agree agree' : Ans → Ans → Prop} {s s' : σ} {is : List ℕ}
    (h : Replay O C agree s is s') (ha : ∀ a b, agree a b → agree' a b) :
    Replay O C agree' s is s' := by
  induction h with
  | nil s => exact .nil s
  | cons hi hab _ ih => exact .cons hi (ha _ _ hab) ih

theorem Linearization.mono {agree agree' : Ans → Ans → Prop} {s₀ : σ} {is : List ℕ}
    (h : Linearization O s₀ es C agree is) (ha : ∀ a b, agree a b → agree' a b) :
    Linearization O s₀ es C agree' is :=
  { h with replay := h.replay.mono ha }

/-- The calls of the handlers in `is`. -/
def Config.calls (C : Config σ Call Op Ret Ans) (is : List ℕ) : List Call :=
  is.filterMap fun i => (C.threads i).map Thread.call

theorem Replay.eq_after {agree : Ans → Ans → Prop} {s s' : σ} {is : List ℕ}
    (h : Replay O C agree s is s') : s' = O.after s (C.calls is) := by
  induction h with
  | nil => rfl
  | cons hi _ _ ih => simp [ih, Config.calls, hi]

theorem Replay.append_inv {agree : Ans → Ans → Prop} {s s'' : σ} {is js : List ℕ}
    (h : Replay O C agree s (is ++ js) s'') :
    ∃ s', Replay O C agree s is s' ∧ Replay O C agree s' js s'' := by
  induction is generalizing s with
  | nil => exact ⟨s, .nil s, h⟩
  | cons i is ih =>
    cases h with
    | cons hi ha hr =>
      obtain ⟨s', h₁, h₂⟩ := ih hr
      exact ⟨s', .cons hi ha h₁, h₂⟩

/-- The handlers that are new in a run have been started in it. -/
theorem Run.start_mem (h : Run O C₀ es C) {i : ℕ} {t : Thread Call Op Ret Ans}
    (hn : C₀.threads i = none) (ht : C.threads i = some t) : .start i t.call ∈ es := by
  induction h generalizing t with
  | nil =>
    rw [hn] at ht
    cases ht
  | snoc _ hstep ih =>
    rcases hstep.call_or_start ht with ⟨t', ht', hc⟩ | rfl
    · exact List.mem_append_left _ (hc ▸ ih ht')
    · exact List.mem_append_right _ (List.mem_singleton_self _)

theorem Run.finish_mem (h : Run O C₀ es C) {i : ℕ} {t : Thread Call Op Ret Ans}
    (hn : C₀.threads i = none) (ht : C.threads i = some t) (hf : t.finished = true) :
    ∃ a, .finish i a ∈ es := by
  induction h generalizing t with
  | nil =>
    rw [hn] at ht
    cases ht
  | @snoc es C e C' _ hstep ih =>
    by_cases hie : i = e.tid
    · subst hie
      cases hstep with
      | start | step =>
        rw [Event.tid, Config.set_threads_self] at ht
        cases ht
        cases hf
      | @finish _ a i _ => exact ⟨a, List.mem_append_right _ (List.mem_singleton_self _)⟩
    · obtain ⟨a, ha⟩ := ih (by rwa [hstep.threads_ne hie] at ht) hf
      exact ⟨a, List.mem_append_left _ ha⟩

theorem Run.finite_threads {s₀ : σ} (h : Run O (.init s₀) es C) :
    {i | C.threads i ≠ none}.Finite := by
  induction h with
  | nil => simp
  | @snoc es C e C' _ hstep ih =>
    refine (ih.insert e.tid).subset ?_
    intro i hi
    by_cases hie : i = e.tid
    · exact .inl hie
    · exact .inr fun hn => hi ((hstep.threads_ne hie).trans hn)

theorem Run.done_of_finished {s₀ : σ} (h : Run O (.init s₀) es C) {i : ℕ}
    {t : Thread Call Op Ret Ans} (ht : C.threads i = some t) (hf : t.finished = true) :
    ∃ a, t.prog = .done a := by
  induction h with
  | nil => cases ht
  | @snoc es C e C' _ hstep ih =>
    by_cases hie : i = e.tid
    · subst hie
      cases hstep with
      | start | step =>
        rw [Event.tid, Config.set_threads_self] at ht
        cases ht
        cases hf
      | @finish _ a =>
        rw [Event.tid, Config.set_threads_self] at ht
        cases ht
        exact ⟨a, rfl⟩
    · exact ih (by rwa [hstep.threads_ne hie] at ht)

/-! ## Real time -/

/-- A pair of handlers that is ordered after an event was so before, if the event
    is not the start of the second one. -/
theorem Before.of_snoc {i j : ℕ} (h : Before (es ++ [e]) i j) :
    (∃ a, .finish i a ∈ es) ∧ (Before es i j ∨ ∃ c, e = .start j c) := by
  obtain ⟨l₁, l₂, l₃, a, c, h⟩ := h
  rcases List.eq_nil_or_concat l₃ with rfl | ⟨l, e', rfl⟩
  · rw [← List.cons_append, ← List.append_assoc] at h
    obtain ⟨rfl, he⟩ := List.append_inj' h rfl
    exact ⟨⟨a, by simp⟩, .inr ⟨c, by simpa using he⟩⟩
  · rw [List.concat_eq_append, ← List.cons_append, ← List.append_assoc, ← List.cons_append,
      ← List.append_assoc] at h
    obtain ⟨rfl, -⟩ := List.append_inj' h rfl
    exact ⟨⟨a, by simp⟩, .inl ⟨l₁, l₂, l, a, c, by simp⟩⟩

theorem Run.before_of_append {s₀ : σ} {C₁ : Config σ Call Op Ret Ans}
    (h₁ : Run O (.init s₀) es C₁) (h₂ : Run O C₁ es' C) {i j : ℕ}
    {t t' : Thread Call Op Ret Ans} (hi : C₁.threads i = some t) (hf : t.finished = true)
    (hn : C₁.threads j = none) (hj : C.threads j = some t') : Before (es ++ es') i j := by
  obtain ⟨a, ha⟩ := h₁.finish_mem rfl hi hf
  obtain ⟨l₁, l₂, rfl⟩ := List.append_of_mem ha
  obtain ⟨l₃, l₄, rfl⟩ := List.append_of_mem (h₂.start_mem hn hj)
  exact ⟨l₁, l₂ ++ l₃, l₄, a, t'.call, by simp⟩

theorem mem_of_pair_sublist {i j : ℕ} {l r : List ℕ} (h : [i, j].Sublist (l ++ r))
    (hn : (l ++ r).Nodup) (hj : j ∈ l) : i ∈ l := by
  obtain ⟨l₁, l₂, he, h₁, h₂⟩ := List.sublist_append_iff.1 h
  cases l₁ with
  | nil =>
    rw [List.nil_append] at he
    have hjr : j ∈ r := h₂.subset (by simp [← he])
    exact absurd rfl ((List.nodup_append.1 hn).2.2 j hj j hjr)
  | cons k l₁ =>
    obtain ⟨rfl, -⟩ := List.cons.inj he
    exact h₁.subset List.mem_cons_self

/-- In a sequential order a handler has the answer of its call after the calls
    before it. -/
theorem Linearization.exists_split {agree : Ans → Ans → Prop} {s₀ : σ} {is : List ℕ}
    (h : Linearization O s₀ es C agree is) {i : ℕ} {c : Call} {a : Ans} {f : Bool} (hi : i ∈ is)
    (ht : C.threads i = some ⟨c, .done a, f⟩) :
    ∃ l l', is = l ++ i :: l' ∧ agree (O.run c (O.after s₀ (C.calls l))).1 a := by
  obtain ⟨l, l', rfl⟩ := List.append_of_mem hi
  obtain ⟨s, hr, hr'⟩ := h.replay.append_inv
  refine ⟨l, l', rfl, ?_⟩
  cases hr' with
  | cons ht' ha =>
    rw [ht] at ht'
    cases ht'
    rwa [hr.eq_after] at ha

/-- In a sequential order what had finished at some point of the run comes before
    what had not started. -/
theorem Linearization.sublist_of_append {agree : Ans → Ans → Prop} {s₀ : σ} {is : List ℕ}
    {C₁ : Config σ Call Op Ret Ans} (h : Linearization O s₀ (es ++ es') C agree is)
    (h₁ : Run O (.init s₀) es C₁) (h₂ : Run O C₁ es' C) {i j : ℕ} {t : Thread Call Op Ret Ans}
    (hi : C₁.threads i = some t) (hf : t.finished = true) (hn : C₁.threads j = none)
    (hj : j ∈ is) : [i, j].Sublist is := by
  obtain ⟨a, ha⟩ := h₁.finish_mem rfl hi hf
  have hi' : i ∈ is := h.complete i a (List.mem_append_left _ ha)
  obtain ⟨t', ht'⟩ : ∃ t', C.threads j = some t' := by
    obtain ⟨l, l', rfl⟩ := List.append_of_mem hj
    obtain ⟨s, -, hr'⟩ := h.replay.append_inv
    cases hr' with
    | cons ht' _ => exact ⟨_, ht'⟩
  exact h.realTime i hi' j hj (h₁.before_of_append h₂ hi hf hn ht')

/-- A sequential order of the handlers of a run that gives their answers, in
    whatever state it ends.  A `Linearization` is one that ends in the same state. -/
structure AnswerOrder (O : Object σ Call Op Ret Ans) (s₀ : σ) (es : List (Event Call Op Ret Ans))
    (C : Config σ Call Op Ret Ans) (agree : Ans → Ans → Prop) (is : List ℕ) : Prop where
  nodup : is.Nodup
  complete : ∀ i a, .finish i a ∈ es → i ∈ is
  realTime : ∀ i ∈ is, ∀ j ∈ is, Before es i j → [i, j].Sublist is
  replay : ∃ s, Replay O C agree s₀ is s

/-! ## The rule -/

section
variable (O) (F : Config σ Call Op Ret Ans) (agree : Ans → Ans → Prop)
  (Taken : Config σ Call Op Ret Ans → ℕ → Prop) (Abs : Config σ Call Op Ret Ans → σ → Prop)

/-- The handlers `js` take effect in a step, one after the other, with the
    answers that they have in the end, in `F`. -/
structure Helping (C C' : Config σ Call Op Ret Ans) (s s' : σ) (js : List ℕ) : Prop where
  nodup : js.Nodup
  fresh : ∀ j ∈ js, ¬ Taken C j
  unfinished : ∀ j ∈ js, ∀ t, C.threads j = some t → t.finished = false
  taken : ∀ j, Taken C' j ↔ Taken C j ∨ j ∈ js
  replay : Replay O F agree s js s'
  abs : Abs C' s'

/-- The handlers that took effect so far, in their order. -/
structure Effects (s₀ : σ) (es : List (Event Call Op Ret Ans)) (C : Config σ Call Op Ret Ans)
    (is : List ℕ) (s : σ) : Prop where
  mem : ∀ i, i ∈ is ↔ Taken C i
  nodup : is.Nodup
  realTime : ∀ i ∈ is, ∀ j ∈ is, Before es i j → [i, j].Sublist is
  replay : Replay O F agree s₀ is s
  abs : Abs C s

end

section
variable {agree : Ans → Ans → Prop} {Taken : Config σ Call Op Ret Ans → ℕ → Prop}
  {Abs : Config σ Call Op Ret Ans → σ → Prop} {s₀ s s' : σ} {is js : List ℕ}

theorem Effects.step (h : Effects O F agree Taken Abs s₀ es C is s)
    (hr : Run O (.init s₀) es C) (hstep : Step O C e C')
    (hstarted : ∀ i, Taken C i → C.threads i ≠ none)
    (hh : Helping O F agree Taken Abs C C' s s' js) :
    Effects O F agree Taken Abs s₀ (es ++ [e]) C' (is ++ js) s' := by
  refine ⟨?_, ?_, ?_, h.replay.append hh.replay, hh.abs⟩
  · intro i
    rw [List.mem_append, h.mem, hh.taken]
  · refine List.nodup_append.2 ⟨h.nodup, hh.nodup, ?_⟩
    rintro i hi _ hj rfl
    exact hh.fresh i hj ((h.mem i).1 hi)
  · intro i hi j hj hb
    obtain ⟨⟨a, ha⟩, hb⟩ := hb.of_snoc
    -- `i` has finished, so it took effect before
    have hi' : i ∈ is := by
      rcases List.mem_append.1 hi with hi | hi
      · exact hi
      · obtain ⟨c, ht⟩ := hr.finished_of_mem ha
        cases hh.unfinished i hi _ ht
    rcases List.mem_append.1 hj with hj | hj
    · rcases hb with hb | ⟨c, rfl⟩
      · exact (h.realTime i hi' j hj hb).trans (List.sublist_append_left _ _)
      · cases hstep with
        | start _ _ hn => exact absurd hn (hstarted j ((h.mem j).1 hj))
    · exact (List.singleton_sublist.2 hi').append (List.singleton_sublist.2 hj)

/-- The rule of linearization points with helping.  In every step some handlers
    take effect, none of them finished; a handler that finished has taken effect,
    and in the end the sequential state is the shared one. -/
theorem Run.linearization_helping (h : Run O (.init s₀) es F)
    (Taken : Config σ Call Op Ret Ans → ℕ → Prop) (Abs : Config σ Call Op Ret Ans → σ → Prop)
    (hstarted : ∀ C i, Taken C i → C.threads i ≠ none) (ha : Abs (.init s₀) s₀)
    (hs : ∀ es C e C' s, Run O (.init s₀) es C → Abs C s → Step O C e C' → Later C' F →
      ∃ js s', Helping O F agree Taken Abs C C' s s' js)
    (hfin : ∀ i c a, F.threads i = some ⟨c, .done a, true⟩ → Taken F i)
    (hF : ∀ s, Abs F s → s = F.shared) : ∃ is, Linearization O s₀ es F agree is := by
  have heff : ∃ is s, Effects O F agree Taken Abs s₀ es F is s := by
    refine h.invariant_later
      (P := fun es C => ∃ is s, Effects O F agree Taken Abs s₀ es C is s) ?_ ?_ (.refl F)
    · rintro es C e C' hr ⟨is, s, heff⟩ hstep hl
      obtain ⟨js, s', hh⟩ := hs es C e C' s hr heff.abs hstep hl
      exact ⟨_, s', heff.step hr hstep (hstarted C) hh⟩
    · have hnone (i : ℕ) : ¬ Taken (.init s₀) i := fun hi => hstarted _ i hi rfl
      exact ⟨[], s₀, by simp [hnone], .nil, by simp, .nil s₀, ha⟩
  obtain ⟨is, s, heff⟩ := heff
  refine ⟨is, heff.nodup, ?_, heff.realTime, hF s heff.abs ▸ heff.replay⟩
  intro i a hi
  obtain ⟨c, ht⟩ := h.finished_of_mem hi
  exact (heff.mem i).2 (hfin i c a ht)

end

end Interleave
