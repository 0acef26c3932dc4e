/-
  Interleave — handlers that run concurrently on a shared state, one atomic
  operation at a time.

  A handler is a `Prog`: operations with their replies, until it answers.  An
  `Object` gives every call its handler and every operation its effect.  A `Run`
  starts handlers, lets them take single operations in any order, and finishes
  those that have answered; its trace is a list of events.

  The rules for proofs about runs are `Run.invariant_later` (what every step
  keeps, every run keeps, with a look ahead) and `Run.order_of_points`: choosing
  an event for each handler gives an order of the handlers that respects real
  time.  `Linearization` is the usual notion; its handlers are those that
  completed, with those in flight that already took effect.  `Run.linearization`
  is the rule of linearization points, where the point of a handler may depend
  on what becomes of it.
-/
import Mathlib

namespace Interleave

/-- A handler: atomic operations, each with a reply, until the answer. -/
inductive Prog (Op Ret Ans : Type) where
  | done (a : Ans)
  | op (o : Op) (next : Ret → Prog Op Ret Ans)

/-- A shared object: what a call runs, and what an operation does. -/
structure Object (σ Call Op Ret Ans : Type) where
  body : Call → Prog Op Ret Ans
  apply : Op → σ → Ret × σ

variable {σ Call Op Ret Ans : Type}

namespace Prog

/-- The rest of a handler, without interruption. -/
def run (apply : Op → σ → Ret × σ) : Prog Op Ret Ans → σ → Ans × σ
  | .done a, s => (a, s)
  | .op o next, s => (next (apply o s).1).run apply (apply o s).2

/-- Translate the answer. -/
def map {Ans' : Type} (f : Ans → Ans') : Prog Op Ret Ans → Prog Op Ret Ans'
  | .done a => .done (f a)
  | .op o next => .op o fun r => (next r).map f

theorem run_map {Ans' : Type} (f : Ans → Ans') (apply : Op → σ → Ret × σ) (p : Prog Op Ret Ans)
    (s : σ) : (p.map f).run apply s = (f (p.run apply s).1, (p.run apply s).2) := by
  induction p generalizing s with
  | done a => rfl
  | op o next ih => exact ih _ _

end Prog

/-- A call as one atomic step. -/
def Object.run (O : Object σ Call Op Ret Ans) (c : Call) (s : σ) : Ans × σ :=
  (O.body c).run O.apply s

/-! ## Runs -/

/-- A handler with the rest of its program. -/
structure Thread (Call Op Ret Ans : Type) where
  call : Call
  prog : Prog Op Ret Ans
  finished : Bool

/-- The shared state and the handlers started so far. -/
structure Config (σ Call Op Ret Ans : Type) where
  shared : σ
  threads : ℕ → Option (Thread Call Op Ret Ans)

namespace Config

/-- Nothing started yet. -/
def init (s : σ) : Config σ Call Op Ret Ans := ⟨s, fun _ => none⟩

/-- The handler `i` becomes `t`, and the shared state `s`. -/
def set (C : Config σ Call Op Ret Ans) (i : ℕ) (t : Thread Call Op Ret Ans) (s : σ) :
    Config σ Call Op Ret Ans :=
  ⟨s, Function.update C.threads i (some t)⟩

variable (C : Config σ Call Op Ret Ans) (i : ℕ) (t : Thread Call Op Ret Ans) (s : σ)

@[simp] theorem init_shared : (init s : Config σ Call Op Ret Ans).shared = s := rfl

@[simp] theorem init_threads : (init s : Config σ Call Op Ret Ans).threads i = none := rfl

@[simp] theorem set_shared : (C.set i t s).shared = s := rfl

@[simp] theorem set_threads_self : (C.set i t s).threads i = some t := by
  simp [set]

theorem set_threads (j : ℕ) :
    (C.set i t s).threads j = if j = i then some t else C.threads j := by
  simp [set, Function.update_apply]

theorem set_threads_ne {j : ℕ} (h : j ≠ i) : (C.set i t s).threads j = C.threads j := by
  rw [set_threads, if_neg h]

end Config

/-- What handler `i` does next. -/
inductive Event (Call Op Ret Ans : Type) where
  | start (i : ℕ) (c : Call)
  | step (i : ℕ) (o : Op) (r : Ret)
  | finish (i : ℕ) (a : Ans)

/-- The handler of an event. -/
def Event.tid : Event Call Op Ret Ans → ℕ
  | .start i _ | .step i _ _ | .finish i _ => i

section
variable (O : Object σ Call Op Ret Ans)

/-- One event of the object. -/
inductive Step : Config σ Call Op Ret Ans → Event Call Op Ret Ans → Config σ Call Op Ret Ans → Prop
  | start {C} (i : ℕ) (c : Call) : C.threads i = none →
      Step C (.start i c) (C.set i ⟨c, O.body c, false⟩ C.shared)
  | step {C c o next} (i : ℕ) : C.threads i = some ⟨c, .op o next, false⟩ →
      Step C (.step i o (O.apply o C.shared).1)
        (C.set i ⟨c, next (O.apply o C.shared).1, false⟩ (O.apply o C.shared).2)
  | finish {C c a} (i : ℕ) : C.threads i = some ⟨c, .done a, false⟩ →
      Step C (.finish i a) (C.set i ⟨c, .done a, true⟩ C.shared)

/-- A run from the configuration `C₀` with its trace. -/
inductive Run (C₀ : Config σ Call Op Ret Ans) :
    List (Event Call Op Ret Ans) → Config σ Call Op Ret Ans → Prop
  | nil : Run C₀ [] C₀
  | snoc {es C e C'} : Run C₀ es C → Step O C e C' → Run C₀ (es ++ [e]) C'

end

variable {O : Object σ Call Op Ret Ans} {es es' : List (Event Call Op Ret Ans)}
  {C₀ C C' : Config σ Call Op Ret Ans} {e : Event Call Op Ret Ans}

theorem Run.append (h : Run O C₀ es C) (h' : Run O C es' C') : Run O C₀ (es ++ es') C' := by
  induction h' with
  | nil => simpa using h
  | snoc _ hstep ih => rw [← List.append_assoc]; exact ih.snoc hstep

/-- A run split at its last event. -/
theorem Run.snoc_inv (h : Run O C₀ (es ++ [e]) C') : ∃ C, Run O C₀ es C ∧ Step O C e C' := by
  generalize hl : es ++ [e] = l at h
  cases h with
  | nil => simp at hl
  | snoc hr hstep =>
    obtain ⟨rfl, he⟩ := List.append_inj' hl rfl
    cases he
    exact ⟨_, hr, hstep⟩

/-- A run split anywhere. -/
theorem Run.append_inv (h : Run O C₀ (es ++ es') C') : ∃ C, Run O C₀ es C ∧ Run O C es' C' := by
  induction es' using List.reverseRecOn generalizing C' with
  | nil => exact ⟨C', by simpa using h, .nil⟩
  | append_singleton es' e ih =>
    rw [← List.append_assoc] at h
    obtain ⟨C₁, hr, hstep⟩ := h.snoc_inv
    obtain ⟨C, hr₁, hr₂⟩ := ih hr
    exact ⟨C, hr₁, hr₂.snoc hstep⟩

/-- A run split at any of its events. -/
theorem Run.cons_inv (h : Run O C₀ (es ++ e :: es') C') :
    ∃ C₁ C₂, Run O C₀ es C₁ ∧ Step O C₁ e C₂ ∧ Run O C₂ es' C' := by
  rw [← List.singleton_append, ← List.append_assoc] at h
  obtain ⟨C₂, h₂, hr⟩ := h.append_inv
  obtain ⟨C₁, h₁, hstep⟩ := h₂.snoc_inv
  exact ⟨C₁, C₂, h₁, hstep, hr⟩

/-! ## Handlers over time -/

/-- A step changes its own handler only. -/
theorem Step.threads_ne (h : Step O C e C') {j : ℕ} (hj : j ≠ e.tid) :
    C'.threads j = C.threads j := by
  cases h <;> exact Config.set_threads_ne _ _ _ _ hj

/-- The handler of a step has been started. -/
theorem Step.threads_tid_ne_none (h : Step O C e C') : C'.threads e.tid ≠ none := by
  cases h <;> simp [Event.tid]

/-- A handler that finished takes no step. -/
theorem Step.not_finished (h : Step O C e C') {t : Thread Call Op Ret Ans}
    (ht : C.threads e.tid = some t) : t.finished = false := by
  cases h with
  | start i c hn => rw [Event.tid, hn] at ht; cases ht
  | step i hs => rw [Event.tid, hs] at ht; cases ht; rfl
  | finish i hs => rw [Event.tid, hs] at ht; cases ht; rfl

/-- What becomes of the handlers of `C`: they keep their call, their answer once
    they have one, and their end. -/
def Later (C C' : Config σ Call Op Ret Ans) : Prop :=
  ∀ i t, C.threads i = some t → ∃ t', C'.threads i = some t' ∧ t'.call = t.call ∧
    (∀ a, t.prog = .done a → t'.prog = .done a) ∧ (t.finished = true → t'.finished = true)

theorem Later.refl (C : Config σ Call Op Ret Ans) : Later C C :=
  fun _ t ht => ⟨t, ht, rfl, fun _ => id, id⟩

theorem Later.trans {C₁ C₂ C₃ : Config σ Call Op Ret Ans} (h : Later C₁ C₂) (h' : Later C₂ C₃) :
    Later C₁ C₃ := by
  intro i t ht
  obtain ⟨t', ht', hc, ha, hf⟩ := h i t ht
  obtain ⟨t'', ht'', hc', ha', hf'⟩ := h' i t' ht'
  exact ⟨t'', ht'', hc'.trans hc, fun a => ha' a ∘ ha a, hf' ∘ hf⟩

/-- A handler that has its answer keeps it. -/
theorem Later.done (h : Later C C') {i : ℕ} {c : Call} {a : Ans} {f : Bool}
    (ht : C.threads i = some ⟨c, .done a, f⟩) :
    ∃ f', C'.threads i = some ⟨c, .done a, f'⟩ ∧ (f = true → f' = true) := by
  obtain ⟨⟨c', p, f'⟩, ht', hc, ha, hf⟩ := h i _ ht
  have hp : p = .done a := ha a rfl
  cases hc
  exact ⟨f', by rw [ht', hp], hf⟩

theorem Step.later (h : Step O C e C') : Later C C' := by
  intro i t ht
  by_cases hi : i = e.tid
  · subst hi
    cases h with
    | start i c hn => rw [Event.tid, hn] at ht; cases ht
    | step i hs =>
      rw [Event.tid, hs] at ht
      cases ht
      refine ⟨_, Config.set_threads_self _ _ _ _, rfl, ?_, ?_⟩
      · intro a ha
        cases ha
      · intro hf
        cases hf
    | finish i hs =>
      rw [Event.tid, hs] at ht
      cases ht
      exact ⟨_, Config.set_threads_self _ _ _ _, rfl, fun _ => id, fun _ => rfl⟩
  · exact ⟨t, by rw [h.threads_ne hi, ht], rfl, fun _ => id, id⟩

/-- A step starts a handler, or goes on with those that there are. -/
theorem Step.call_or_start (h : Step O C e C') {i : ℕ} {t' : Thread Call Op Ret Ans}
    (ht : C'.threads i = some t') :
    (∃ t, C.threads i = some t ∧ t.call = t'.call) ∨ e = .start i t'.call := by
  have hset {j : ℕ} {t₀ : Thread Call Op Ret Ans} {s : σ}
      (h₀ : (C.set j t₀ s).threads i = some t') : C.threads i = some t' ∨ j = i ∧ t₀ = t' := by
    rw [Config.set_threads] at h₀
    split_ifs at h₀ with hj
    · exact .inr ⟨hj.symm, Option.some.inj h₀⟩
    · exact .inl h₀
  cases h with
  | start j c hn =>
    rcases hset ht with h | ⟨rfl, rfl⟩
    · exact .inl ⟨t', h, rfl⟩
    · exact .inr rfl
  | step j hj =>
    rcases hset ht with h | ⟨rfl, rfl⟩
    · exact .inl ⟨t', h, rfl⟩
    · exact .inl ⟨_, hj, rfl⟩
  | finish j hj =>
    rcases hset ht with h | ⟨rfl, rfl⟩
    · exact .inl ⟨t', h, rfl⟩
    · exact .inl ⟨_, hj, rfl⟩

theorem Run.later (h : Run O C₀ es C) : Later C₀ C := by
  induction h with
  | nil => exact .refl _
  | snoc _ hstep ih => exact ih.trans hstep.later

/-- An invariant that may look ahead: what a step keeps, given what becomes of
    the handlers in the end (a prophecy). -/
theorem Run.invariant_later {P : List (Event Call Op Ret Ans) → Config σ Call Op Ret Ans → Prop}
    {F : Config σ Call Op Ret Ans}
    (hs : ∀ es C e C', Run O C₀ es C → P es C → Step O C e C' → Later C' F → P (es ++ [e]) C')
    (h₀ : P [] C₀) (h : Run O C₀ es C) (hF : Later C F) : P es C := by
  induction h with
  | nil => exact h₀
  | snoc hr hstep ih => exact hs _ _ _ _ hr (ih (hstep.later.trans hF)) hstep hF

theorem Run.tid_ne_of_threads_eq_none (h : Run O C₀ es C) {i : ℕ} (hi : C.threads i = none) :
    ∀ e ∈ es, e.tid ≠ i := by
  induction h with
  | nil => simp
  | @snoc es C e C' hr hstep ih =>
    have hne : e.tid ≠ i := fun he => hstep.threads_tid_ne_none (he ▸ hi)
    intro e' he'
    rcases List.mem_append.1 he' with he' | he'
    · exact ih (hstep.threads_ne hne.symm ▸ hi) e' he'
    · rw [List.mem_singleton.1 he']
      exact hne

theorem Run.tid_ne_of_finished (h : Run O C₀ es C) {i : ℕ} {t : Thread Call Op Ret Ans}
    (ht : C₀.threads i = some t) (hf : t.finished = true) : ∀ e ∈ es, e.tid ≠ i := by
  induction h with
  | nil => simp
  | snoc hr hstep ih =>
    intro e' he'
    rcases List.mem_append.1 he' with he' | he'
    · exact ih e' he'
    · rw [List.mem_singleton.1 he']
      rintro rfl
      obtain ⟨t', ht', -, -, hf'⟩ := hr.later _ _ ht
      rw [hstep.not_finished ht'] at hf'
      cases hf' hf

/-- A handler is not started again. -/
theorem Run.start_notMem (h : Run O C₀ es C) {i : ℕ} {t : Thread Call Op Ret Ans}
    (ht : C₀.threads i = some t) (c : Call) : .start i c ∉ es := by
  intro he
  obtain ⟨l₁, l₂, rfl⟩ := List.append_of_mem he
  obtain ⟨C₁, C₂, h₁, hstep, -⟩ := h.cons_inv
  obtain ⟨t', ht', -⟩ := h₁.later _ _ ht
  cases hstep with
  | start _ _ hn => rw [hn] at ht'; cases ht'

theorem Run.tid_ne_before_start {i : ℕ} {c : Call} (h : Run O C₀ (es ++ .start i c :: es') C) :
    ∀ e ∈ es, e.tid ≠ i := by
  obtain ⟨C₁, C₂, h₁, hstep, -⟩ := h.cons_inv
  cases hstep with
  | start _ _ hn => exact h₁.tid_ne_of_threads_eq_none hn

theorem Run.tid_ne_after_finish {i : ℕ} {a : Ans} (h : Run O C₀ (es ++ .finish i a :: es') C) :
    ∀ e ∈ es', e.tid ≠ i := by
  obtain ⟨C₁, C₂, -, hstep, h₂⟩ := h.cons_inv
  cases hstep with
  | finish _ _ => exact h₂.tid_ne_of_finished (Config.set_threads_self _ _ _ _) rfl

/-- The end of a handler stays on its record. -/
theorem Run.finished_of_mem (h : Run O C₀ es C) {i : ℕ} {a : Ans} (he : .finish i a ∈ es) :
    ∃ c, C.threads i = some ⟨c, .done a, true⟩ := by
  obtain ⟨l₁, l₂, rfl⟩ := List.append_of_mem he
  obtain ⟨C₁, C₂, -, hstep, hr⟩ := h.cons_inv
  cases hstep with
  | @finish c _ _ ht =>
    obtain ⟨f, ht', hf⟩ := hr.later.done (Config.set_threads_self _ _ _ _)
    exact ⟨c, by rw [ht', hf rfl]⟩

/-! ## Linearization -/

/-- The handler `i` finished before the handler `j` was started. -/
def Before (es : List (Event Call Op Ret Ans)) (i j : ℕ) : Prop :=
  ∃ l₁ l₂ l₃ a c, es = l₁ ++ .finish i a :: (l₂ ++ .start j c :: l₃)

/-- The handlers in the order of the events that `point` picks out. -/
def order (point : Event Call Op Ret Ans → Option ℕ) (es : List (Event Call Op Ret Ans)) :
    List ℕ :=
  es.filterMap point

theorem mem_order {point : Event Call Op Ret Ans → Option ℕ} {i : ℕ} :
    i ∈ order point es ↔ ∃ e ∈ es, point e = some i := by
  simp [order]

/-- Points that are events of their own handlers give an order that respects
    real time. -/
theorem Run.order_of_points {point : Event Call Op Ret Ans → Option ℕ}
    (hp : ∀ e i, point e = some i → e.tid = i) (h : Run O C₀ es C) {i j : ℕ}
    (hi : i ∈ order point es) (hj : j ∈ order point es) (hb : Before es i j) :
    [i, j].Sublist (order point es) := by
  obtain ⟨l₁, l₂, l₃, a, c, rfl⟩ := hb
  have hafter := h.tid_ne_after_finish
  rw [← List.cons_append, ← List.append_assoc] at h hi hj ⊢
  have hbefore := h.tid_ne_before_start
  -- the event of `i` is not after its end, the event of `j` not before its start
  have hi' : [i].Sublist (order point (l₁ ++ .finish i a :: l₂)) := by
    rw [List.singleton_sublist]
    obtain ⟨e, he, hpe⟩ := mem_order.1 hi
    refine mem_order.2 ⟨e, ?_, hpe⟩
    rcases List.mem_append.1 he with he | he
    · exact he
    · exact absurd (hp e i hpe) (hafter e (List.mem_append_right _ he))
  have hj' : [j].Sublist (order point (.start j c :: l₃)) := by
    rw [List.singleton_sublist]
    obtain ⟨e, he, hpe⟩ := mem_order.1 hj
    refine mem_order.2 ⟨e, ?_, hpe⟩
    rcases List.mem_append.1 he with he | he
    · exact absurd (hp e j hpe) (hbefore e he)
    · exact he
  rw [order, List.filterMap_append]
  exact hi'.append hj'

section
variable (O)

/-- The calls of the handlers in `is`, one after the other and each atomic, take
    the state `s` to `s'` with the answers that the handlers gave in `C`, up to
    `agree`. -/
inductive Replay (C : Config σ Call Op Ret Ans) (agree : Ans → Ans → Prop) :
    σ → List ℕ → σ → Prop
  | nil (s : σ) : Replay C agree s [] s
  | cons {s s' : σ} {i : ℕ} {is : List ℕ} {c : Call} {a : Ans} {f : Bool} :
      C.threads i = some ⟨c, .done a, f⟩ → agree (O.run c s).1 a →
      Replay C agree (O.run c s).2 is s' → Replay C agree s (i :: is) s'

/-- A sequential order of the handlers of a run. -/
structure Linearization (s₀ : σ) (es : List (Event Call Op Ret Ans))
    (C : Config σ Call Op Ret Ans) (agree : Ans → Ans → Prop) (is : List ℕ) : Prop where
  nodup : is.Nodup
  /-- Every handler that finished has its place. -/
  complete : ∀ i a, .finish i a ∈ es → i ∈ is
  /-- A handler that finished before another one started comes first. -/
  realTime : ∀ i ∈ is, ∀ j ∈ is, Before es i j → [i, j].Sublist is
  /-- One after the other they give the same answers and the same state. -/
  replay : Replay O C agree s₀ is C.shared

end

theorem Replay.snoc {agree : Ans → Ans → Prop} {s s' : σ} {is : List ℕ} {i : ℕ} {c : Call}
    {a : Ans} {f : Bool} (h : Replay O C agree s is s') (hi : C.threads i = some ⟨c, .done a, f⟩)
    (ha : agree (O.run c s').1 a) : Replay O C agree s (is ++ [i]) (O.run c s').2 := by
  induction h with
  | nil s => exact .cons hi ha (.nil _)
  | cons hj hb _ ih => exact .cons hj hb (ih ha)

/-! ## Linearization points -/

section
variable (O) (F : Config σ Call Op Ret Ans) (agree : Ans → Ans → Prop)
  (point : Event Call Op Ret Ans → Option ℕ) (Taken : Config σ Call Op Ret Ans → ℕ → Prop)
  (Abs : Config σ Call Op Ret Ans → σ → Prop)

/-- The step is no point, and the sequential state may stay. -/
structure Silent (C : Config σ Call Op Ret Ans) (e : Event Call Op Ret Ans)
    (C' : Config σ Call Op Ret Ans) : Prop where
  point : point e = none
  taken : ∀ j, Taken C' j ↔ Taken C j
  abs : ∀ s, Abs C s → Abs C' s

/-- The step is the point of the handler `i`: the sequential state makes the
    whole call, with the answer that the handler has in the end, in `F`. -/
structure Effective (C : Config σ Call Op Ret Ans) (e : Event Call Op Ret Ans)
    (C' : Config σ Call Op Ret Ans) (i : ℕ) (c : Call) (a : Ans) : Prop where
  point : point e = some i
  fresh : ¬ Taken C i
  taken : ∀ j, Taken C' j ↔ Taken C j ∨ j = i
  answer : ∃ f, F.threads i = some ⟨c, .done a, f⟩
  agree : ∀ s, Abs C s → agree (O.run c s).1 a
  abs : ∀ s, Abs C s → Abs C' (O.run c s).2

/-- The handlers at their points, one after the other, up to here. -/
structure Points (s₀ : σ) (es : List (Event Call Op Ret Ans)) (C : Config σ Call Op Ret Ans) :
    Prop where
  mem : ∀ i, i ∈ order point es ↔ Taken C i
  nodup : (order point es).Nodup
  replay : ∃ s, Replay O F agree s₀ (order point es) s ∧ Abs C s

end

section
variable {F : Config σ Call Op Ret Ans} {agree : Ans → Ans → Prop}
  {point : Event Call Op Ret Ans → Option ℕ} {Taken : Config σ Call Op Ret Ans → ℕ → Prop}
  {Abs : Config σ Call Op Ret Ans → σ → Prop} {s₀ : σ}

theorem Points.silent (h : Points O F agree point Taken Abs s₀ es C)
    (hs : Silent point Taken Abs C e C') : Points O F agree point Taken Abs s₀ (es ++ [e]) C' := by
  have ho : order point (es ++ [e]) = order point es := by simp [order, hs.point]
  obtain ⟨s, hr, ha⟩ := h.replay
  refine ⟨?_, ho ▸ h.nodup, s, ho ▸ hr, hs.abs s ha⟩
  intro i
  rw [ho, hs.taken, h.mem]

theorem Points.effective (h : Points O F agree point Taken Abs s₀ es C) {i : ℕ} {c : Call} {a : Ans}
    (hs : Effective O F agree point Taken Abs C e C' i c a) :
    Points O F agree point Taken Abs s₀ (es ++ [e]) C' := by
  have ho : order point (es ++ [e]) = order point es ++ [i] := by simp [order, hs.point]
  obtain ⟨s, hr, ha⟩ := h.replay
  obtain ⟨f, hF⟩ := hs.answer
  refine ⟨?_, ?_, _, ho ▸ hr.snoc hF (hs.agree s ha), hs.abs s ha⟩
  · intro j
    rw [ho, List.mem_append, List.mem_singleton, hs.taken, h.mem]
  · rw [ho, List.nodup_append]
    refine ⟨h.nodup, List.nodup_singleton i, ?_⟩
    rintro j hj _ hi rfl
    rw [List.mem_singleton] at hi
    exact hs.fresh ((h.mem i).1 (hi ▸ hj))

/-- The rule of linearization points.  Every step is silent or the point of a
    handler, a handler that finished has had its point, and in the end the
    sequential state is the shared one. -/
theorem Run.linearization (h : Run O (.init s₀) es F)
    (point : Event Call Op Ret Ans → Option ℕ) (Taken : Config σ Call Op Ret Ans → ℕ → Prop)
    (Abs : Config σ Call Op Ret Ans → σ → Prop) (hp : ∀ e i, point e = some i → e.tid = i)
    (h₀ : ∀ i, ¬ Taken (.init s₀) i) (ha : Abs (.init s₀) s₀)
    (hs : ∀ es C e C', Run O (.init s₀) es C → Step O C e C' → Later C' F →
      Silent point Taken Abs C e C' ∨
        ∃ i c a, Effective O F agree point Taken Abs C e C' i c a)
    (hfin : ∀ i c a, F.threads i = some ⟨c, .done a, true⟩ → Taken F i)
    (hF : ∀ s, Abs F s → s = F.shared) :
    Linearization O s₀ es F agree (order point es) := by
  have hpts : Points O F agree point Taken Abs s₀ es F := by
    refine h.invariant_later (P := Points O F agree point Taken Abs s₀) ?_ ?_ (.refl F)
    · intro es C e C' hr hpts hstep hl
      rcases hs es C e C' hr hstep hl with hsil | ⟨i, c, a, heff⟩
      · exact hpts.silent hsil
      · exact hpts.effective heff
    · exact ⟨fun i => by simp [order, h₀ i], by simp [order], s₀, .nil s₀, ha⟩
  obtain ⟨s, hr, hsF⟩ := hpts.replay
  refine ⟨hpts.nodup, ?_, fun i hi j hj hb => h.order_of_points hp hi hj hb, ?_⟩
  · intro i a hi
    obtain ⟨c, ht⟩ := h.finished_of_mem hi
    exact (hpts.mem i).2 (hfin i c a ht)
  · rwa [hF s hsF] at hr

end

end Interleave
