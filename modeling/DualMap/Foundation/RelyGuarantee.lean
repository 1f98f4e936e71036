import DualMap.Foundation.Coroutine
import Mathlib.Data.Finset.Insert
import Mathlib.Logic.Function.Basic

/-!
# Tasks That Rely on Each Other

`Coro.Ensures` says what a task does among others that only do what it relies on. Here the
others are tasks as well: if every operation of each task is something that all the others rely
on, every task does in the crowd what it ensures (`Crowd.parallel`).

A proof may use a variable that no task looks at. What a task ensures with its help holds
without it (`Coro.Ensures.of_auxiliary`).
-/

namespace Coro

variable {σ α β γ : Type}

/-! ## The operations of a task -/

/-- Every operation of the task is a step of `R`, whatever the state is when it runs. -/
def Steps (R : σ → σ → Prop) : Coro σ α → Prop
  | ret _ => True
  | run act next => ∀ s, R s (act s) ∧ Steps R (next s)
  | await next => Steps R next

section Steps

variable {R : σ → σ → Prop}

theorem Steps.ret (value : α) : Steps R (ret value : Coro σ α) := trivial

theorem Steps.suspend : Steps R (suspend : Coro σ Unit) := trivial

theorem Steps.act {f : σ → α × σ} (h : ∀ s, R s (f s).2) : Steps R (act f) :=
  fun s => ⟨h s, trivial⟩

theorem Steps.bind {c : Coro σ α} {k : α → Coro σ β} (hc : Steps R c)
    (hk : ∀ a, Steps R (k a)) : Steps R (c >>= k) := by
  induction c with
  | ret value => exact hk value
  | run act next ih =>
    intro s
    exact ⟨(hc s).1, ih s (hc s).2⟩
  | await next ih => exact ih hc

theorem Steps.mono {R' : σ → σ → Prop} (hR : ∀ s t, R s t → R' s t) {c : Coro σ α}
    (hc : Steps R c) : Steps R' c := by
  induction c with
  | ret value => trivial
  | run act next ih =>
    intro s
    exact ⟨hR _ _ (hc s).1, ih s (hc s).2⟩
  | await next ih => exact ih hc

/-- Up to its next suspension point the task takes a chain of `R`, and so does what is left. -/
theorem Steps.resume {c : Coro σ α} (hc : Steps R c) (s : σ) :
    Relation.ReflTransGen R s (c.resume s).2 ∧ Steps R (c.resume s).1 := by
  induction c generalizing s with
  | ret value => exact ⟨.refl, trivial⟩
  | run act next ih =>
    obtain ⟨hchain, hrest⟩ := ih s (hc s).2 (act s)
    exact ⟨.head (hc s).1 hchain, hrest⟩
  | await next _ => exact ⟨.refl, hc⟩

end Steps

/-! ## Properties that sequencing keeps -/

/-- A property of code without operations, and of sequences of code that has it. -/
structure Compositional (C : ∀ {β : Type}, Coro σ β → Prop) : Prop where
  ret : ∀ {β : Type} (value : β), C (ret value)
  suspend : C suspend
  bind : ∀ {β δ : Type} {c : Coro σ β} {k : β → Coro σ δ},
    C c → (∀ b, C (k b)) → C (c >>= k)

theorem Steps.compositional (R : σ → σ → Prop) : Compositional (Steps R) :=
  ⟨Steps.ret, Steps.suspend, Steps.bind⟩

/-! ## Runs that have not ended -/

section Reaches

variable {env : σ → σ → Prop} {c₀ : Coro σ α} {s₀ : σ}

/-- A run of the task `c₀` from `s₀` has come to the state where `c` is left of it. -/
inductive Reaches (env : σ → σ → Prop) (c₀ : Coro σ α) (s₀ : σ) : Coro σ α → σ → Prop where
  | start : Reaches env c₀ s₀ c₀ s₀
  | run {act : σ → σ} {next : σ → Coro σ α} {s : σ} :
      Reaches env c₀ s₀ (run act next) s → Reaches env c₀ s₀ (next s) (act s)
  | await {next : Coro σ α} {s t : σ} :
      Reaches env c₀ s₀ (await next) s → env s t → Reaches env c₀ s₀ next t

/-- What runs on to its end makes a complete run. -/
theorem Reaches.runs {c : Coro σ α} {s t : σ} {value : α} (h : Reaches env c₀ s₀ c s)
    (hrest : Runs env c s value t) : Runs env c₀ s₀ value t := by
  induction h with
  | start => exact hrest
  | run _ ih => exact ih (.run hrest)
  | await _ henv ih => exact ih (.await henv hrest)

/-- The task was stopped, at a suspension point or by its end, and the environment has gone on
since. -/
def Stopped (env : σ → σ → Prop) (c₀ : Coro σ α) (s₀ : σ) (c : Coro σ α) (s : σ) : Prop :=
  ∃ u, env u s ∧ (Reaches env c₀ s₀ (await c) u ∨
    ∃ value, c = ret value ∧ Reaches env c₀ s₀ (ret value) u)

theorem Reaches.resume [Std.Refl env] {c : Coro σ α} {s : σ} (h : Reaches env c₀ s₀ c s) :
    Stopped env c₀ s₀ (c.resume s).1 (c.resume s).2 := by
  induction c generalizing s with
  | ret value => exact ⟨s, refl s, Or.inr ⟨value, rfl, h⟩⟩
  | run act next ih => exact ih s h.run
  | await next _ => exact ⟨s, refl s, Or.inl h⟩

theorem Stopped.resume [Std.Refl env] {c : Coro σ α} {s : σ} (h : Stopped env c₀ s₀ c s) :
    Stopped env c₀ s₀ (c.resume s).1 (c.resume s).2 := by
  obtain ⟨u, henv, hawait | ⟨value, rfl, hret⟩⟩ := h
  · exact (hawait.await henv).resume
  · exact ⟨u, henv, Or.inr ⟨value, rfl, hret⟩⟩

theorem Stopped.others [IsTrans σ env] {c : Coro σ α} {s t : σ}
    (h : Stopped env c₀ s₀ c s) (henv : env s t) : Stopped env c₀ s₀ c t := by
  obtain ⟨u, hbefore, hstop⟩ := h
  exact ⟨u, trans_of env hbefore henv, hstop⟩

/-- A task that has ended did so after a complete run. -/
theorem Stopped.ended [Std.Refl env] {value : α} {s : σ}
    (h : Stopped env c₀ s₀ (ret value) s) : ∃ u, Runs env c₀ s₀ value u ∧ env u s := by
  obtain ⟨u, henv, hawait | ⟨value', hvalue, hret⟩⟩ := h
  · exact ⟨s, (hawait.await henv).runs (.ret value s), refl s⟩
  · cases hvalue
    exact ⟨u, hret.runs (.ret value u), henv⟩

end Reaches

/-! ## Auxiliary variables -/

/-- The task neither reads nor writes what `put` overwrites. -/
def Ignores (put : γ → σ → σ) : Coro σ α → Prop
  | ret _ => True
  | run act next => ∀ s, (∀ b, act (put b s) = put b (act s) ∧ next (put b s) = next s) ∧
      Ignores put (next s)
  | await next => Ignores put next

section Ignores

variable {put : γ → σ → σ}

theorem Ignores.ret (value : α) : Ignores put (ret value : Coro σ α) := trivial

theorem Ignores.suspend : Ignores put (suspend : Coro σ Unit) := trivial

theorem Ignores.act {f : σ → α × σ} (h : ∀ s b, f (put b s) = ((f s).1, put b (f s).2)) :
    Ignores put (act f) := by
  intro s
  refine ⟨fun b => ⟨congrArg Prod.snd (h s b), ?_⟩, trivial⟩
  exact congrArg (fun x => Coro.ret x.1) (h s b)

theorem Ignores.bind {c : Coro σ α} {k : α → Coro σ β} (hc : Ignores put c)
    (hk : ∀ a, Ignores put (k a)) : Ignores put (c >>= k) := by
  induction c with
  | ret value => exact hk value
  | run act next ih =>
    intro s
    refine ⟨fun b => ⟨((hc s).1 b).1, ?_⟩, ih s (hc s).2⟩
    dsimp only
    rw [((hc s).1 b).2]
  | await next ih => exact ih hc

theorem Ignores.compositional (put : γ → σ → σ) : Compositional (Ignores put) :=
  ⟨Ignores.ret, Ignores.suspend, Ignores.bind⟩

/-- A run can be accompanied by any values of the auxiliary variable that the environment
allows. -/
theorem Ignores.runs {env env' : σ → σ → Prop}
    (henv : ∀ s t, env s t → ∀ b, ∃ b', env' (put b s) (put b' t)) {c : Coro σ α}
    (hc : Ignores put c) {s t : σ} {value : α} (hrun : Runs env c s value t) (b : γ) :
    ∃ b', Runs env' c (put b s) value (put b' t) := by
  induction hrun generalizing b with
  | ret value s => exact ⟨b, .ret value _⟩
  | @run act next s value t _ ih =>
    obtain ⟨hact, hnext⟩ := (hc s).1 b
    obtain ⟨b', hrest⟩ := ih (hc s).2 b
    refine ⟨b', .run ?_⟩
    rw [hnext, hact]
    exact hrest
  | await hstep _ ih =>
    obtain ⟨b₁, hstep'⟩ := henv _ _ hstep b
    obtain ⟨b', hrest⟩ := ih hc b₁
    exact ⟨b', .await hstep' hrest⟩

theorem Ensures.of_auxiliary {env env' : σ → σ → Prop} {P P' : σ → Prop}
    {Q Q' : α → σ → Prop} {c : Coro σ α} (hc : Ignores put c)
    (henv : ∀ s t, env s t → ∀ b, ∃ b', env' (put b s) (put b' t))
    (h : Ensures env' P' c Q') (hP : ∀ s, P s → ∃ b, P' (put b s))
    (hQ : ∀ value t b, Q' value (put b t) → Q value t) : Ensures env P c Q := by
  intro s value t hs hrun
  obtain ⟨b, hs'⟩ := hP s hs
  obtain ⟨b', hrun'⟩ := hc.runs henv hrun b
  exact hQ value t b' (h _ value _ hs' hrun')

end Ignores

end Coro

/-! ## Crowds -/

/-- Tasks over one state. There is no coroutine where the task is still to be created. -/
structure Crowd (ι σ α : Type) where
  shared : σ
  task : ι → Option (Coro σ α)

namespace Crowd

variable {ι σ α : Type} [DecidableEq ι]

/-- A task is created, or it runs up to its next suspension point. -/
inductive Step (code : ι → Coro σ α) : Crowd ι σ α → Crowd ι σ α → Prop where
  | create (p : Crowd ι σ α) (i : ι) : p.task i = none →
      Step code p { p with task := Function.update p.task i (some (code i)) }
  | resume (p : Crowd ι σ α) (i : ι) (c : Coro σ α) : p.task i = some c →
      Step code p
        ⟨(c.resume p.shared).2, Function.update p.task i (some (c.resume p.shared).1)⟩

/-- Nothing has been created. -/
def start (s : σ) : Crowd ι σ α := ⟨s, fun _ => none⟩

variable {code : ι → Coro σ α}

/-- The task is created or goes on up to its next suspension point. -/
def resumeAt (code : ι → Coro σ α) (p : Crowd ι σ α) (i : ι) : Crowd ι σ α :=
  match p.task i with
  | none => { p with task := Function.update p.task i (some (code i)) }
  | some c => ⟨(c.resume p.shared).2, Function.update p.task i (some (c.resume p.shared).1)⟩

/-- Any choice of tasks to go on with, one after the other, is one of the interleavings. -/
theorem resumes (code : ι → Coro σ α) (p : Crowd ι σ α) (order : List ι) :
    Relation.ReflTransGen (Step code) p (order.foldl (resumeAt code) p) := by
  induction order generalizing p with
  | nil => exact .refl
  | cons i order ih =>
    refine .head ?_ (ih (p.resumeAt code i))
    unfold resumeAt
    split
    · next hnone => exact .create p i hnone
    · next c hsome => exact .resume p i c hsome

/-- What the task has returned. -/
def returned (p : Crowd ι σ α) (i : ι) : Option α :=
  match p.task i with
  | some (.ret value) => some value
  | _ => none

omit [DecidableEq ι] in
theorem task_of_returned {p : Crowd ι σ α} {i : ι} {value : α}
    (h : p.returned i = some value) : p.task i = some (.ret value) := by
  unfold returned at h
  split at h
  · next htask => rw [htask, Option.some.inj h]
  · cases h

/-- What is left of a task takes only steps that its code takes. -/
theorem left_steps {R : σ → σ → Prop} {i : ι} (hcode : Coro.Steps R (code i)) {s : σ}
    {p : Crowd ι σ α} (hrun : Relation.ReflTransGen (Step code) (start s) p) {c : Coro σ α}
    (hsome : p.task i = some c) : Coro.Steps R c := by
  induction hrun generalizing c with
  | refl => cases hsome
  -- a task is the code it was created with, or what a resumption left of it
  | @tail p p' _ hstep ih =>
    cases hstep with
    | create j hnone =>
      dsimp only at hsome
      by_cases hi : i = j
      · rw [← hi, Function.update_self] at hsome
        exact Option.some.inj hsome ▸ hcode
      · rw [Function.update_of_ne hi] at hsome
        exact ih hsome
    | resume j c' hbefore =>
      dsimp only at hsome
      by_cases hi : i = j
      · rw [← hi, Function.update_self] at hsome
        rw [← hi] at hbefore
        exact Option.some.inj hsome ▸ ((ih hbefore).resume p.shared).2
      · rw [Function.update_of_ne hi] at hsome
        exact ih hsome

/-- The crowd takes the state along what all tasks take it. -/
theorem run_steps {R : σ → σ → Prop} (hcode : ∀ i, Coro.Steps R (code i)) {s : σ}
    {p : Crowd ι σ α} (hrun : Relation.ReflTransGen (Step code) (start s) p) :
    Relation.ReflTransGen R s p.shared := by
  induction hrun with
  | refl => exact .refl
  | @tail p p' hbefore hstep ih =>
    cases hstep with
    | create j hnone => exact ih
    | resume j c hsome => exact ih.trans ((left_steps (hcode j) hbefore hsome).resume p.shared).1

/-- What every operation keeps holds in every state of every interleaving. -/
theorem run_keeps {I : σ → Prop} (hcode : ∀ i, Coro.Steps (fun s t => I s → I t) (code i))
    {s : σ} (hs : I s) {p : Crowd ι σ α}
    (hrun : Relation.ReflTransGen (Step code) (start s) p) : I p.shared := by
  have hkept : ∀ t, Relation.ReflTransGen (fun s t => I s → I t) s t → I t := by
    intro t hchain
    induction hchain with
    | refl => exact hs
    | tail _ hstep ih => exact hstep ih
  exact hkept _ (run_steps hcode hrun)

/-- How far a task has come: it is still to be created, it was created and has not run, or it
was stopped after the others had brought its precondition. -/
def Along (rely : σ → σ → Prop) (P : σ → Prop) (c₀ : Coro σ α) (s : σ) :
    Option (Coro σ α) → Prop
  | none => P s
  | some c => (c = c₀ ∧ P s) ∨ ∃ s₀, P s₀ ∧ Coro.Stopped rely c₀ s₀ c s

section Parallel

variable {rely : ι → σ → σ → Prop} {P : ι → σ → Prop} {Q : ι → α → σ → Prop}

omit [DecidableEq ι] in
theorem Along.others [∀ i, IsTrans σ (rely i)] {i : ι} {s t : σ} {left : Option (Coro σ α)}
    (hP : ∀ s t, P i s → rely i s t → P i t) (h : Along (rely i) (P i) (code i) s left)
    (henv : rely i s t) : Along (rely i) (P i) (code i) t left := by
  cases left with
  | none => exact hP s t h henv
  | some c =>
    rcases h with ⟨hc, hs⟩ | ⟨s₀, hs₀, hstop⟩
    · exact Or.inl ⟨hc, hP s t hs henv⟩
    · exact Or.inr ⟨s₀, hs₀, hstop.others henv⟩

/-- One step of the crowd moves one task, and is relied on by all others. -/
theorem Step.along [∀ i, Std.Refl (rely i)] [∀ i, IsTrans σ (rely i)]
    (hP : ∀ i s t, P i s → rely i s t → P i t) {p p' : Crowd ι σ α} (hstep : Step code p p')
    (hleft : ∀ i j c, i ≠ j → p.task j = some c → Coro.Steps (rely i) c)
    (h : ∀ i, Along (rely i) (P i) (code i) p.shared (p.task i)) (i : ι) :
    Along (rely i) (P i) (code i) p'.shared (p'.task i) := by
  cases hstep with
  | create j hnone =>
    dsimp only
    by_cases hi : i = j
    · have hbefore := h i
      rw [hi, hnone] at hbefore
      rw [hi, Function.update_self]
      exact Or.inl ⟨rfl, hbefore⟩
    · rw [Function.update_of_ne hi]
      exact h i
  -- the resumed task moves on in its own run; to any other it is a step of the others
  | resume j c hsome =>
    dsimp only
    by_cases hi : i = j
    · have hbefore := h i
      rw [hi, hsome] at hbefore
      rw [hi, Function.update_self]
      rcases hbefore with ⟨rfl, hs⟩ | ⟨s₀, hs₀, hstop⟩
      · exact Or.inr ⟨p.shared, hs, Coro.Reaches.start.resume⟩
      · exact Or.inr ⟨s₀, hs₀, hstop.resume⟩
    · rw [Function.update_of_ne hi]
      have hchain := ((hleft i j c hi hsome).resume p.shared).1
      rw [Relation.reflTransGen_eq_self] at hchain
      exact (h i).others (hP i) hchain

/-- The rule of parallel composition: in every interleaving, a task that is still to be created
finds its precondition, and one that has ended has brought about what it ensures. -/
theorem parallel [∀ i, Std.Refl (rely i)] [∀ i, IsTrans σ (rely i)]
    (hsteps : ∀ i j, i ≠ j → Coro.Steps (rely i) (code j))
    (hP : ∀ i s t, P i s → rely i s t → P i t)
    (hQ : ∀ i value s t, Q i value s → rely i s t → Q i value t)
    (hensures : ∀ i, Coro.Ensures (rely i) (P i) (code i) (Q i)) {s : σ} (hs : ∀ i, P i s)
    {p : Crowd ι σ α} (hrun : Relation.ReflTransGen (Step code) (start s) p) (i : ι) :
    (p.task i = none → P i p.shared) ∧
      ∀ value, p.task i = some (.ret value) → Q i value p.shared := by
  have hall : ∀ i, Along (rely i) (P i) (code i) p.shared (p.task i) := by
    induction hrun with
    | refl => exact hs
    | tail hbefore hstep ih =>
      exact hstep.along hP (fun i j _ hij => left_steps (hsteps i j hij) hbefore) ih
  have halong := hall i
  constructor
  · intro hnone
    rwa [hnone] at halong
  · intro value hsome
    rw [hsome] at halong
    -- a task that has not started has ended only when its code returns at once
    rcases halong with ⟨hcode, hnow⟩ | ⟨s₀, hs₀, hstop⟩
    · refine hensures i p.shared value p.shared hnow ?_
      rw [← hcode]
      exact .ret value _
    · obtain ⟨u, hruns, henv⟩ := hstop.ended
      exact hQ i value u _ (hensures i s₀ value u hs₀ hruns) henv

end Parallel

end Crowd
