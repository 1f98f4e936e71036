import Mathlib.Algebra.BigOperators.Group.List.Basic
import Mathlib.Algebra.Group.Hom.Defs
import Mathlib.Logic.Relation
import Mathlib.Tactic.Abel

/-!
# Cooperative Coroutines over Shared State

Code under an event loop runs without interruption between two suspension points.
`Coro σ α` is such code over a state `σ`: a tree of state operations (`run`) and
suspension points (`await`) that ends in a value.

Three readings of the same tree:
- `atomically`: run to the end, as when no suspension point ever yields;
- `resume`: run up to the next suspension point, the step of an event loop;
- `Runs env`: run to the end while an environment acts at the suspension points.

A `Pool` is an event loop over tasks that each have private locals. `Guarantees` is the
program logic for one task: it follows the task's own locals exactly and leaves the
shared state arbitrary, because other tasks act on it in between. `Pool.Step.conserves`
is the rule this development needs of it: a quantity that every operation only moves
between the locals and the shared state is the same in every state of every
interleaving.
-/

/-- A coroutine: a value, an uninterrupted state operation, or a suspension point. -/
inductive Coro (σ α : Type) where
  | ret (value : α)
  /-- `next` continues from what the operation read in the state before it. -/
  | run (act : σ → σ) (next : σ → Coro σ α)
  | await (next : Coro σ α)

namespace Coro

variable {σ α β : Type}

/-! ## The monad of coroutines -/

/-- Sequencing: no suspension point is added between the two parts. -/
def bind : Coro σ α → (α → Coro σ β) → Coro σ β
  | ret value, k => k value
  | run act next, k => run act (fun s => (next s).bind k)
  | await next, k => await (next.bind k)

instance : Monad (Coro σ) where
  pure := ret
  bind := bind

@[simp] theorem pure_def (value : α) : (pure value : Coro σ α) = ret value := rfl

@[simp] theorem ret_bind (value : α) (k : α → Coro σ β) : ret value >>= k = k value := rfl

@[simp] theorem run_bind (act : σ → σ) (next : σ → Coro σ α) (k : α → Coro σ β) :
    run act next >>= k = run act (fun s => next s >>= k) := rfl

@[simp] theorem await_bind (next : Coro σ α) (k : α → Coro σ β) :
    await next >>= k = await (next >>= k) := rfl

/-- One uninterrupted operation with a result. -/
def act (f : σ → α × σ) : Coro σ α := run (fun s => (f s).2) (fun s => ret (f s).1)

/-- Read from the state. -/
def read (f : σ → α) : Coro σ α := run id (fun s => ret (f s))

/-- Change the state. -/
def modify (f : σ → σ) : Coro σ Unit := run f (fun _ => ret ())

/-- A suspension point. -/
def suspend : Coro σ Unit := await (ret ())

/-! ## Running without interruption -/

/-- Run to the end, passing every suspension point without yielding. -/
def atomically : Coro σ α → σ → α × σ
  | ret value, s => (value, s)
  | run act next, s => (next s).atomically (act s)
  | await next, s => next.atomically s

@[simp] theorem atomically_ret (value : α) (s : σ) :
    (ret value : Coro σ α).atomically s = (value, s) := rfl

@[simp] theorem atomically_act (f : σ → α × σ) (s : σ) : (act f).atomically s = f s := rfl

@[simp] theorem atomically_read (f : σ → α) (s : σ) : (read f).atomically s = (f s, s) := rfl

@[simp] theorem atomically_modify (f : σ → σ) (s : σ) :
    (modify f).atomically s = ((), f s) := rfl

@[simp] theorem atomically_suspend (s : σ) : suspend.atomically s = ((), s) := rfl

@[simp] theorem atomically_bind (c : Coro σ α) (k : α → Coro σ β) (s : σ) :
    (c >>= k).atomically s = (k (c.atomically s).1).atomically (c.atomically s).2 := by
  -- the tree of `c` is walked in the state that its operations lead to
  induction c generalizing s with
  | ret value => rfl
  | run act next ih => exact ih s (act s)
  | await next ih => exact ih s

theorem atomically_forM_cons {γ : Type} (f : γ → Coro σ Unit) (x : γ) (xs : List γ) (s : σ) :
    ((x :: xs).forM f).atomically s = (xs.forM f).atomically ((f x).atomically s).2 :=
  atomically_bind (f x) (fun _ => xs.forM f) s

/-- A property of the state that every turn of a loop keeps holds after the loop. -/
theorem atomically_forM_preserves {γ : Type} (I : σ → Prop) (f : γ → Coro σ Unit)
    (step : ∀ x s, I s → I ((f x).atomically s).2) (xs : List γ) (s : σ) (h : I s) :
    I ((xs.forM f).atomically s).2 := by
  induction xs generalizing s with
  | nil => exact h
  | cons x xs ih =>
    rw [atomically_forM_cons]
    exact ih _ (step x s h)

/-! ## Running up to the next suspension point -/

/-- Run up to the next suspension point, or to the end. -/
def resume : Coro σ α → σ → Coro σ α × σ
  | ret value, s => (ret value, s)
  | run act next, s => (next s).resume (act s)
  -- the suspension point itself is consumed: the next step starts behind it
  | await next, s => (next, s)

/-! ## Running among other tasks -/

/-- Complete runs in which the environment takes a step of `env` at every suspension
point. -/
inductive Runs (env : σ → σ → Prop) : Coro σ α → σ → α → σ → Prop where
  | ret (value : α) (s : σ) : Runs env (ret value) s value s
  | run {act : σ → σ} {next : σ → Coro σ α} {s : σ} {value : α} {s' : σ} :
      Runs env (next s) (act s) value s' → Runs env (run act next) s value s'
  | await {next : Coro σ α} {s t : σ} {value : α} {s' : σ} :
      env s t → Runs env next t value s' → Runs env (await next) s value s'

/-- A run of a sequence is a run of the first part followed by one of the second. -/
theorem runs_bind {env : σ → σ → Prop} {c : Coro σ α} {k : α → Coro σ β} {s s' : σ}
    {b : β} : Runs env (c >>= k) s b s' ↔
      ∃ a t, Runs env c s a t ∧ Runs env (k a) t b s' := by
  -- induction on the first part; every node of it is a node of the sequence
  induction c generalizing s with
  | ret value =>
    constructor
    · intro h
      exact ⟨value, s, .ret value s, h⟩
    · rintro ⟨a, t, h1, h2⟩
      cases h1
      exact h2
  | run act next ih =>
    constructor
    · intro h
      cases h with
      | run h =>
        obtain ⟨a, t, h1, h2⟩ := (ih s).mp h
        exact ⟨a, t, .run h1, h2⟩
    · rintro ⟨a, t, h1, h2⟩
      -- the first part begins with the operation, so the sequence does
      cases h1 with
      | run h1 => exact .run ((ih s).mpr ⟨a, t, h1, h2⟩)
  | await next ih =>
    constructor
    · intro h
      cases h with
      | await he h =>
        obtain ⟨a, t, h1, h2⟩ := ih.mp h
        exact ⟨a, t, .await he h1, h2⟩
    · rintro ⟨a, t, h1, h2⟩
      cases h1 with
      | await he h1 => exact .await he (ih.mpr ⟨a, t, h1, h2⟩)

theorem runs_ret {env : σ → σ → Prop} {a b : α} {s s' : σ} :
    Runs env (ret a) s b s' ↔ b = a ∧ s' = s := by
  constructor
  · intro h; cases h; exact ⟨rfl, rfl⟩
  · rintro ⟨rfl, rfl⟩; exact .ret _ _

theorem runs_act {env : σ → σ → Prop} {f : σ → α × σ} {s s' : σ} {b : α} :
    Runs env (act f) s b s' ↔ b = (f s).1 ∧ s' = (f s).2 := by
  constructor
  · intro h
    cases h with
    | run h => exact runs_ret.mp h
  · rintro ⟨rfl, rfl⟩
    exact .run (.ret _ _)

theorem runs_suspend {env : σ → σ → Prop} {s s' : σ} {u : Unit} :
    Runs env suspend s u s' ↔ env s s' := by
  constructor
  · intro h
    cases h with
    | await he h => cases h; exact he
  · intro h
    exact .await h (.ret _ _)

/-- A reflexive environment may stay idle: running without interruption is a run. -/
theorem runs_atomically {env : σ → σ → Prop} (hidle : ∀ s, env s s) (c : Coro σ α) (s : σ) :
    Runs env c s (c.atomically s).1 (c.atomically s).2 := by
  induction c generalizing s with
  | ret value => exact .ret value s
  | run act next ih => exact .run (ih s (act s))
  | await next ih => exact .await (hidle s) (ih s)

/-! ## Pre- and postconditions -/

/-- Every complete run from a state with `P` ends with `Q`. -/
def Ensures (env : σ → σ → Prop) (P : σ → Prop) (c : Coro σ α) (Q : α → σ → Prop) : Prop :=
  ∀ s value t, P s → Runs env c s value t → Q value t

section Ensures

variable {env : σ → σ → Prop} {P : σ → Prop}

theorem Ensures.bind {R : α → σ → Prop} {Q : β → σ → Prop} {c : Coro σ α}
    {k : α → Coro σ β} (hc : Ensures env P c R) (hk : ∀ a, Ensures env (R a) (k a) Q) :
    Ensures env P (c >>= k) Q := by
  intro s value t hs hrun
  -- `u` is the state between the two parts
  obtain ⟨a, u, hfirst, hsecond⟩ := runs_bind.mp hrun
  exact hk a u value t (hc s a u hs hfirst) hsecond

theorem Ensures.ret {Q : α → σ → Prop} {value : α} (h : ∀ s, P s → Q value s) :
    Ensures env P (.ret value) Q := by
  intro s value' t hs hrun
  obtain ⟨rfl, rfl⟩ := runs_ret.mp hrun
  exact h _ hs

theorem Ensures.act {Q : α → σ → Prop} {f : σ → α × σ} (h : ∀ s, P s → Q (f s).1 (f s).2) :
    Ensures env P (Coro.act f) Q := by
  intro s value t hs hrun
  obtain ⟨rfl, rfl⟩ := runs_act.mp hrun
  exact h s hs

/-- A part of the precondition that does not look at the state is a hypothesis. -/
theorem Ensures.assume {φ : Prop} {Q : α → σ → Prop} {c : Coro σ α}
    (h : φ → Ensures env P c Q) : Ensures env (fun s => φ ∧ P s) c Q := by
  intro s value t hs hrun
  exact h hs.1 s value t hs.2 hrun

/-- What the environment keeps still holds after waiting. -/
theorem Ensures.suspend {Q : σ → Prop} (h : ∀ s t, P s → env s t → Q t) :
    Ensures env P Coro.suspend (fun _ => Q) := by
  intro s value t hs hrun
  exact h s t hs (runs_suspend.mp hrun)

end Ensures

/-! ## Tasks with private locals -/

section Tasks

variable {ν : Type}

/-- An operation on the shared part of the state. -/
def shared (f : σ → α × σ) : Coro (ν × σ) α :=
  act (fun s => ((f s.2).1, (s.1, (f s.2).2)))

@[simp] theorem atomically_shared (f : σ → α × σ) (s : ν × σ) :
    (shared f).atomically s = ((f s.2).1, (s.1, (f s.2).2)) := rfl

/-- Every operation of the task takes a step of `P`, whatever the shared state is when it
runs, and the task ends with `Q` of its value and its locals. The locals are followed
exactly: no other task can touch them. -/
def Guarantees (P : ν × σ → ν × σ → Prop) (Q : α → ν → Prop) :
    Coro (ν × σ) α → ν → Prop
  | ret value, l => Q value l
  -- the shared state `s` is arbitrary: other tasks may have changed it
  | run act next, l => ∀ s, P (l, s) (act (l, s)) ∧
      Guarantees P Q (next (l, s)) (act (l, s)).1
  | await next, l => Guarantees P Q next l

variable {P : ν × σ → ν × σ → Prop}

theorem Guarantees.bind {Q : α → ν → Prop} {R : β → ν → Prop} {c : Coro (ν × σ) α}
    {k : α → Coro (ν × σ) β} {l : ν} (hc : Guarantees P Q c l)
    (hk : ∀ a l', Q a l' → Guarantees P R (k a) l') : Guarantees P R (c >>= k) l := by
  -- the locals move along the tree of `c`, the postcondition is met at its leaves
  induction c generalizing l with
  | ret value => exact hk value l hc
  | run act next ih =>
    intro s
    exact ⟨(hc s).1, ih (l, s) (hc s).2⟩
  | await next ih => exact ih hc

theorem Guarantees.weaken {Q R : α → ν → Prop} {c : Coro (ν × σ) α} {l : ν}
    (hc : Guarantees P Q c l) (h : ∀ a l', Q a l' → R a l') : Guarantees P R c l := by
  induction c generalizing l with
  | ret value => exact h value l hc
  | run act next ih =>
    intro s
    exact ⟨(hc s).1, ih (l, s) (hc s).2⟩
  | await next ih => exact ih hc

theorem Guarantees.mono {P' : ν × σ → ν × σ → Prop} (hP : ∀ x y, P x y → P' x y)
    {Q : α → ν → Prop} {c : Coro (ν × σ) α} {l : ν} (hc : Guarantees P Q c l) :
    Guarantees P' Q c l := by
  induction c generalizing l with
  | ret value => exact hc
  | run act next ih =>
    intro s
    exact ⟨hP _ _ (hc s).1, ih (l, s) (hc s).2⟩
  | await next ih => exact ih hc

theorem Guarantees.ret {Q : α → ν → Prop} {a : α} {l : ν} (h : Q a l) :
    Guarantees P Q (.ret a) l := h

theorem Guarantees.suspend {Q : Unit → ν → Prop} {l : ν} (h : Q () l) :
    Guarantees P Q suspend l := h

theorem Guarantees.modify {Q : Unit → ν → Prop} {f : ν × σ → ν × σ} {l : ν}
    (hP : ∀ s, P (l, s) (f (l, s))) (hQ : ∀ s, Q () (f (l, s)).1) :
    Guarantees P Q (Coro.modify f) l :=
  fun s => ⟨hP s, hQ s⟩

theorem Guarantees.shared {Q : α → ν → Prop} {f : σ → α × σ} {l : ν}
    (hP : ∀ s, P (l, s) (l, (f s).2)) (hQ : ∀ a, Q a l) :
    Guarantees P Q (Coro.shared f) l :=
  fun s => ⟨hP s, hQ _⟩

/-- The loop rule: a property of the locals that every turn keeps holds after the loop. -/
theorem Guarantees.forM {γ : Type} {I : ν → Prop} {f : γ → Coro (ν × σ) Unit}
    (step : ∀ x l, I l → Guarantees P (fun _ l' => I l') (f x) l) (xs : List γ) {l : ν}
    (h : I l) : Guarantees P (fun _ l' => I l') (xs.forM f) l := by
  induction xs generalizing l with
  | nil => exact h
  | cons x xs ih =>
    show Guarantees P _ (f x >>= fun _ => xs.forM f) l
    exact (step x l h).bind (fun _ l' hl' => ih hl')

/-- A task that guarantees `P` takes a chain of `P` steps up to its next suspension point,
and what is left of it still guarantees `P`. -/
theorem Guarantees.resume {Q : α → ν → Prop} {c : Coro (ν × σ) α} {l : ν}
    (hc : Guarantees P Q c l) (s : σ) :
    Relation.ReflTransGen P (l, s) (c.resume (l, s)).2 ∧
      Guarantees P Q (c.resume (l, s)).1 (c.resume (l, s)).2.1 := by
  induction c generalizing l s with
  | ret value => exact ⟨.refl, hc⟩
  | run act next ih =>
    obtain ⟨hP, hnext⟩ := hc s
    obtain ⟨hsteps, hrest⟩ := ih (l, s) hnext (act (l, s)).2
    exact ⟨.head hP hsteps, hrest⟩
  -- no operation has run yet, and what is behind the suspension point is what is left
  | await next _ => exact ⟨.refl, hc⟩

/-- Run without interruption, a task that guarantees `P` takes a chain of `P` steps. -/
theorem Guarantees.atomically {Q : α → ν → Prop} {c : Coro (ν × σ) α} {l : ν}
    (hc : Guarantees P Q c l) (s : σ) :
    Relation.ReflTransGen P (l, s) (c.atomically (l, s)).2 ∧
      Q (c.atomically (l, s)).1 (c.atomically (l, s)).2.1 := by
  induction c generalizing l s with
  | ret value => exact ⟨.refl, hc⟩
  | run act next ih =>
    obtain ⟨hP, hnext⟩ := hc s
    obtain ⟨hsteps, hend⟩ := ih (l, s) hnext (act (l, s)).2
    exact ⟨.head hP hsteps, hend⟩
  -- nothing happens at the suspension point
  | await next ih => exact ih hc s

/-- The task leaves its locals alone, and each of its operations is a step of `R`. -/
def Keeps (R : σ → σ → Prop) (c : Coro (ν × σ) α) : Prop :=
  ∀ l, Guarantees (fun x y => y.1 = x.1 ∧ R x.2 y.2) (fun _ l' => l' = l) c l

section Keeps

variable {R : σ → σ → Prop}

theorem Keeps.pure (a : α) : Keeps R (pure a : Coro (ν × σ) α) :=
  fun _ => Guarantees.ret rfl

theorem Keeps.suspend : Keeps R (Coro.suspend : Coro (ν × σ) Unit) :=
  fun _ => Guarantees.suspend rfl

theorem Keeps.shared {f : σ → α × σ} (hf : ∀ s, R s (f s).2) :
    Keeps R (Coro.shared f : Coro (ν × σ) α) :=
  fun _ => Guarantees.shared (fun s => ⟨rfl, hf s⟩) (fun _ => rfl)

theorem Keeps.bind {c : Coro (ν × σ) α} {k : α → Coro (ν × σ) β} (hc : Keeps R c)
    (hk : ∀ a, Keeps R (k a)) : Keeps R (c >>= k) := by
  intro l
  apply (hc l).bind
  intro a l' hl'
  rw [hl']
  exact hk a l

theorem Keeps.foldlM {γ δ : Type} {f : δ → γ → Coro (ν × σ) δ}
    (hf : ∀ d x, Keeps R (f d x)) (xs : List γ) (d : δ) : Keeps R (xs.foldlM f d) := by
  induction xs generalizing d with
  | nil => exact Keeps.pure d
  | cons x xs ih =>
    rw [List.foldlM_cons]
    exact (hf d x).bind ih

theorem Keeps.forM {γ : Type} {f : γ → Coro (ν × σ) Unit} (hf : ∀ x, Keeps R (f x))
    (xs : List γ) : Keeps R (xs.forM f) := by
  induction xs with
  | nil => exact Keeps.pure ()
  | cons x xs ih => exact (hf x).bind (fun _ => ih)

theorem Keeps.mono {R' : σ → σ → Prop} (hR : ∀ s t, R s t → R' s t)
    {c : Coro (ν × σ) α} (hc : Keeps R c) : Keeps R' c :=
  fun l => (hc l).mono (fun _ _ h => ⟨h.1, hR _ _ h.2⟩)

theorem Keeps.guarantees {P : ν × σ → ν × σ → Prop} (hR : ∀ l s t, R s t → P (l, s) (l, t))
    {c : Coro (ν × σ) α} (hc : Keeps R c) (l : ν) :
    Guarantees P (fun _ l' => l' = l) c l := by
  apply (hc l).mono
  rintro ⟨l₀, s⟩ ⟨l₁, t⟩ ⟨hlocals, hst⟩
  -- an operation that leaves the locals alone acts on the shared state only
  have hlocals : l₁ = l₀ := hlocals
  rw [hlocals]
  exact hR l₀ s t hst

/-- What leaves the locals alone may stand before anything. -/
theorem Keeps.bind_guarantees {P : ν × σ → ν × σ → Prop}
    (hR : ∀ l s t, R s t → P (l, s) (l, t)) {c : Coro (ν × σ) α} (hc : Keeps R c)
    {k : α → Coro (ν × σ) β} {Q : β → ν → Prop} {l : ν} (hk : ∀ a, Guarantees P Q (k a) l) :
    Guarantees P Q (c >>= k) l := by
  apply (hc.guarantees hR l).bind
  intro a l' hl'
  rw [hl']
  exact hk a

/-- Run without interruption, the task takes the shared state along a chain of `R`. -/
theorem Keeps.atomically {c : Coro (ν × σ) α} (hc : Keeps R c) (l : ν) (s : σ) :
    ∃ s', (c.atomically (l, s)).2 = (l, s') ∧ Relation.ReflTransGen R s s' := by
  obtain ⟨hsteps, hlocals⟩ := (hc l).atomically s
  refine ⟨(c.atomically (l, s)).2.2, Prod.ext hlocals rfl, ?_⟩
  exact hsteps.lift Prod.snd (fun _ _ h => h.2)

end Keeps

/-- Each operation of the task takes the shared state along `R`, whatever becomes of the
locals. -/
def Takes (R : σ → σ → Prop) (c : Coro (ν × σ) α) : Prop :=
  ∀ l, Guarantees (fun x y => R x.2 y.2) (fun _ _ => True) c l

section Takes

variable {R : σ → σ → Prop}

theorem Takes.pure (a : α) : Takes R (pure a : Coro (ν × σ) α) :=
  fun _ => Guarantees.ret trivial

theorem Takes.suspend : Takes R (Coro.suspend : Coro (ν × σ) Unit) :=
  fun _ => Guarantees.suspend trivial

theorem Takes.read (hR : ∀ s, R s s) (f : ν × σ → α) : Takes R (Coro.read f) :=
  fun _ s => ⟨hR s, trivial⟩

theorem Takes.modify {f : ν × σ → ν × σ} (hf : ∀ l s, R s (f (l, s)).2) :
    Takes R (Coro.modify f) :=
  fun l => Guarantees.modify (hf l) (fun _ => trivial)

theorem Takes.bind {c : Coro (ν × σ) α} {k : α → Coro (ν × σ) β} (hc : Takes R c)
    (hk : ∀ a, Takes R (k a)) : Takes R (c >>= k) :=
  fun l => (hc l).bind (fun a l' _ => hk a l')

theorem Takes.forM {γ : Type} {f : γ → Coro (ν × σ) Unit} (hf : ∀ x, Takes R (f x))
    (xs : List γ) : Takes R (xs.forM f) :=
  fun _ => Guarantees.forM (fun x l _ => hf x l) xs trivial

theorem Keeps.takes {c : Coro (ν × σ) α} (hc : Keeps R c) : Takes R c := by
  intro l
  have hsteps : Guarantees (fun x y => R x.2 y.2) (fun _ l' => l' = l) c l :=
    (hc l).mono (fun _ _ h => h.2)
  exact hsteps.weaken (fun _ _ _ => trivial)

/-- Run without interruption, the task takes the shared state along a chain of `R`. -/
theorem Takes.atomically {c : Coro (ν × σ) α} (hc : Takes R c) (x : ν × σ) :
    Relation.ReflTransGen R x.2 (c.atomically x).2.2 :=
  ((hc x.1).atomically x.2).1.lift Prod.snd (fun _ _ h => h)

end Takes

end Tasks

end Coro

/-! ## Event loops -/

/-- An event loop: the shared state, and the tasks with their private locals. -/
structure Pool (ν σ : Type) where
  shared : σ
  tasks : List (ν × Coro (ν × σ) Unit)

namespace Pool

variable {ν σ : Type}

/-- One step of the event loop: a new task is created, or some task runs up to its next
suspension point. Which one is never prescribed. -/
inductive Step (spawns : ν × Coro (ν × σ) Unit → Prop) : Pool ν σ → Pool ν σ → Prop where
  | spawn (s : σ) (ts : List (ν × Coro (ν × σ) Unit)) (t : ν × Coro (ν × σ) Unit) :
      spawns t → Step spawns ⟨s, ts⟩ ⟨s, t :: ts⟩
  | resume (s : σ) (before after : List (ν × Coro (ν × σ) Unit)) (l : ν)
      (c : Coro (ν × σ) Unit) :
      Step spawns ⟨s, before ++ (l, c) :: after⟩
        ⟨(c.resume (l, s)).2.2, before ++ ((c.resume (l, s)).2.1, (c.resume (l, s)).1) :: after⟩

/-- Resume the `i`-th task, if there is one. -/
def resumeAt (p : Pool ν σ) (i : ℕ) : Pool ν σ :=
  match p.tasks[i]? with
  | none => p
  | some (l, c) => ⟨(c.resume (l, p.shared)).2.2,
      p.tasks.set i ((c.resume (l, p.shared)).2.1, (c.resume (l, p.shared)).1)⟩

/-- Any choice of tasks to resume, one after the other, is one of the interleavings. -/
theorem resumes (spawns : ν × Coro (ν × σ) Unit → Prop) (p : Pool ν σ) (order : List ℕ) :
    Relation.ReflTransGen (Step spawns) p (order.foldl resumeAt p) := by
  induction order generalizing p with
  | nil => exact .refl
  | cons i order ih =>
    refine .trans ?_ (ih (p.resumeAt i))
    unfold resumeAt
    split
    · exact .refl
    · next l c htask =>
      obtain ⟨hi, htask⟩ := List.getElem?_eq_some_iff.mp htask
      -- the task between those before it and those after it
      have hsplit : p.tasks = p.tasks.take i ++ (l, c) :: p.tasks.drop (i + 1) := by
        rw [← htask, List.getElem_cons_drop, List.take_append_drop]
      rw [List.set_eq_take_append_cons_drop, if_pos hi]
      have hstep : Step spawns _ _ :=
        .resume p.shared (p.tasks.take i) (p.tasks.drop (i + 1)) l c
      rw [← hsplit] at hstep
      exact .single hstep

/-- Every task takes the shared state along `R`. -/
def AllTake (R : σ → σ → Prop) (p : Pool ν σ) : Prop :=
  ∀ t ∈ p.tasks, Coro.Guarantees (fun x y => R x.2 y.2) (fun _ _ => True) t.2 t.1

/-- So does each step of the event loop, if the new tasks do. -/
theorem Step.takes {spawns : ν × Coro (ν × σ) Unit → Prop} {R : σ → σ → Prop}
    (hspawns : ∀ t, spawns t → Coro.Takes R t.2) {p p' : Pool ν σ} (hp : p.AllTake R)
    (hstep : Step spawns p p') :
    p'.AllTake R ∧ Relation.ReflTransGen R p.shared p'.shared := by
  cases hstep with
  | spawn s ts t ht =>
    refine ⟨?_, .refl⟩
    intro t' ht'
    rcases List.mem_cons.mp ht' with rfl | hmem
    · exact hspawns t' ht t'.1
    · exact hp t' hmem
  | resume s before after l c =>
    obtain ⟨hchain, hrest⟩ := (hp (l, c) (by simp)).resume s
    refine ⟨?_, hchain.lift Prod.snd fun _ _ h => h⟩
    intro t' ht'
    rcases List.mem_append.mp ht' with hb | ha
    · exact hp t' (by simp [hb])
    · rcases List.mem_cons.mp ha with rfl | ha
      · exact hrest
      · exact hp t' (by simp [ha])

/-- Only the new tasks matter. -/
theorem Step.mono {spawns spawns' : ν × Coro (ν × σ) Unit → Prop} {p p' : Pool ν σ}
    (h : ∀ t, spawns t → p'.tasks = t :: p.tasks → spawns' t) (hstep : Step spawns p p') :
    Step spawns' p p' := by
  cases hstep with
  | spawn s ts t ht => exact .spawn s ts t (h t ht rfl)
  | resume s before after l c => exact .resume s before after l c

section Conservation

variable {M : Type} [AddCommMonoid M]

/-- An operation that only moves a quantity between the locals and the shared state. -/
def Moves (held : ν → M) (stored : σ → M) (x y : ν × σ) : Prop :=
  held y.1 + stored y.2 = held x.1 + stored x.2

/-- What the shared state and all tasks together hold. -/
def total (held : ν → M) (stored : σ → M) (p : Pool ν σ) : M :=
  (p.tasks.map (fun t => held t.1)).sum + stored p.shared

/-- Every task of the pool only moves the quantity, and ends with locals that satisfy
`Q`. -/
def Conserving (held : ν → M) (stored : σ → M) (Q : ν → Prop) (p : Pool ν σ) : Prop :=
  ∀ t ∈ p.tasks, Coro.Guarantees (Moves held stored) (fun _ => Q) t.2 t.1

/-- A homomorphic measure of the total is the sum of its measures. -/
theorem map_total {N : Type} [AddCommMonoid N] (φ : M →+ N) (held : ν → M) (stored : σ → M)
    (p : Pool ν σ) :
    φ (p.total held stored) = (p.tasks.map (fun t => φ (held t.1))).sum + φ (stored p.shared) := by
  rw [total, map_add, map_list_sum, List.map_map]
  rfl

theorem moves_of_chain {held : ν → M} {stored : σ → M} {x y : ν × σ}
    (h : Relation.ReflTransGen (Moves held stored) x y) : Moves held stored x y := by
  induction h with
  | refl => rfl
  | tail _ hstep ih => exact Eq.trans hstep ih

/-- A step of the event loop adds what the created task holds and changes the total in no
other way; the tasks go on conserving it. -/
theorem Step.conserves {spawns : ν × Coro (ν × σ) Unit → Prop} {held : ν → M}
    {stored : σ → M} {Q : ν → Prop} (hspawns : ∀ t, spawns t →
      Coro.Guarantees (Moves held stored) (fun _ => Q) t.2 t.1)
    {p p' : Pool ν σ} (hp : p.Conserving held stored Q) (hstep : Step spawns p p') :
    p'.Conserving held stored Q ∧
      (p'.total held stored = p.total held stored ∨
        ∃ t, spawns t ∧ p'.tasks = t :: p.tasks ∧
          p'.total held stored = held t.1 + p.total held stored) := by
  cases hstep with
  | spawn s ts t ht =>
    -- the new task brings in what it holds
    refine ⟨?_, Or.inr ⟨t, ht, rfl, ?_⟩⟩
    · intro t' ht'
      rcases List.mem_cons.mp ht' with rfl | hmem
      · exact hspawns t' ht
      · exact hp t' hmem
    · simp [total, add_assoc]
  | resume s before after l c =>
    -- all operations up to the next suspension point together move the quantity once
    have hc := hp (l, c) (by simp)
    obtain ⟨hchain, hrest⟩ := hc.resume s
    have hmoves := moves_of_chain hchain
    refine ⟨?_, Or.inl ?_⟩
    · intro t' ht'
      rcases List.mem_append.mp ht' with hb | ha
      · exact hp t' (by simp [hb])
      · rcases List.mem_cons.mp ha with rfl | ha
        · exact hrest
        · exact hp t' (by simp [ha])
    -- the locals of the other tasks are untouched, so only this task's share matters
    · simp only [Moves] at hmoves
      simp only [total, List.map_append, List.map_cons, List.sum_append, List.sum_cons]
      calc (before.map (fun t => held t.1)).sum +
              (held (c.resume (l, s)).2.1 + (after.map (fun t => held t.1)).sum) +
              stored (c.resume (l, s)).2.2
          = (before.map (fun t => held t.1)).sum + (after.map (fun t => held t.1)).sum +
              (held (c.resume (l, s)).2.1 + stored (c.resume (l, s)).2.2) := by abel
        _ = (before.map (fun t => held t.1)).sum + (after.map (fun t => held t.1)).sum +
              (held l + stored s) := by rw [hmoves]
        _ = _ := by abel

end Conservation

end Pool
