import Mathlib.Tactic.Basic

/-!
# State, Exceptions and Divergence

Code that changes a state and may fail: `Py σ α` is `EStateM` with Python's ways of
not returning. An exception leaves the changes made before it in place. `hang` stands for
a loop that never ends; like a cancellation, no `except Exception` clause catches it.
-/

/-- The built-in exceptions that the modelled code raises. -/
inductive PyException where
  | assertionError
  | attributeError
  | indexError
  | keyError
  | runtimeError
  | typeError
  | unboundLocalError
  | valueError
  | zeroDivisionError
  deriving DecidableEq, Repr

/-- The ways in which a call can end without returning a value. -/
inductive Fault where
  | exception (e : PyException)
  /-- `asyncio.CancelledError`, which is not an `Exception`. -/
  | cancelled
  /-- The call never ends. -/
  | hang
  deriving DecidableEq, Repr

/-- Code over the state `σ` that returns an `α` or faults. -/
abbrev Py (σ α : Type) := EStateM Fault σ α

namespace Py

variable {σ τ α β : Type}

/-- `raise e`. -/
def raise (e : PyException) : Py σ α := throw (.exception e)

/-- A computation without effects that may raise. -/
def ofExcept : Except PyException α → Py σ α
  | .ok a => pure a
  | .error e => raise e

/-- A value that may be missing, and what using it then raises. -/
def ofOption (e : PyException) : Option α → Py σ α
  | some a => pure a
  | none => raise e

/-- `assert p`. -/
def assert (p : Prop) [Decidable p] : Py σ PUnit :=
  if p then pure ⟨⟩ else raise .assertionError

/-- `try: body except Exception: handler`. -/
def tryExcept (body : Py σ α) (handler : PyException → Py σ α) : Py σ α := fun s =>
  match body s with
  | .error (.exception e) s' => handler e s'
  -- a value, a cancellation or a loop without end passes through
  | result => result

/-- Run code on a part of the state. -/
def zoom (part : σ → τ) (put : σ → τ → σ) (code : Py τ α) : Py σ α := fun s =>
  match code (part s) with
  | .ok a t => .ok a (put s t)
  | .error f t => .error f (put s t)

/-- The state that a run leaves, however it ended. -/
def finalState : EStateM.Result Fault σ α → σ
  | .ok _ s => s
  | .error _ s => s

@[simp] theorem finalState_ok (a : α) (s : σ) :
    finalState (.ok a s : EStateM.Result Fault σ α) = s := rfl

@[simp] theorem finalState_error (f : Fault) (s : σ) :
    finalState (.error f s : EStateM.Result Fault σ α) = s := rfl

/-- What a run returns, if it does. -/
def returned : EStateM.Result Fault σ α → Option α
  | .ok a _ => some a
  | .error _ _ => none

theorem eq_ok_of_returned {result : EStateM.Result Fault σ α} {a : α}
    (h : returned result = some a) : result = .ok a (finalState result) := by
  cases result with
  | ok b s =>
    obtain rfl := Option.some.inj h
    rfl
  | error f s => cases h

/-! ## Stepping through a sequence -/

@[simp] theorem pure_apply (a : α) (s : σ) : (pure a : Py σ α) s = .ok a s := rfl

@[simp] theorem get_apply (s : σ) : (get : Py σ σ) s = .ok s s := rfl

@[simp] theorem set_apply (s' s : σ) : (set s' : Py σ PUnit) s = .ok ⟨⟩ s' := rfl

@[simp] theorem modify_apply (f : σ → σ) (s : σ) :
    (modify f : Py σ PUnit) s = .ok ⟨⟩ (f s) := rfl

@[simp] theorem modifyGet_apply (f : σ → α × σ) (s : σ) :
    (modifyGet f : Py σ α) s = .ok (f s).1 (f s).2 := rfl

@[simp] theorem ofOption_some (e : PyException) (a : α) :
    (ofOption e (some a) : Py σ α) = pure a := rfl

theorem assert_pos {p : Prop} [Decidable p] (h : p) : (assert p : Py σ PUnit) = pure ⟨⟩ :=
  if_pos h

@[simp] theorem throw_apply (f : Fault) (s : σ) : (throw f : Py σ α) s = .error f s := rfl

@[simp] theorem raise_apply (e : PyException) (s : σ) :
    (raise e : Py σ α) s = .error (.exception e) s := rfl

theorem bind_apply (m : Py σ α) (k : α → Py σ β) (s : σ) :
    (m >>= k) s = match m s with
      | .ok a s' => k a s'
      | .error f s' => .error f s' := by
  show EStateM.bind m k s = _
  unfold EStateM.bind
  cases m s <;> rfl

theorem map_apply (f : α → β) (m : Py σ α) (s : σ) :
    (f <$> m) s = match m s with
      | .ok a s' => .ok (f a) s'
      | .error e s' => .error e s' := by
  show EStateM.map f m s = _
  unfold EStateM.map
  cases m s <;> rfl

theorem zoom_apply (part : σ → τ) (put : σ → τ → σ) (code : Py τ α) (s : σ) :
    zoom part put code s = match code (part s) with
      | .ok a t => .ok a (put s t)
      | .error f t => .error f (put s t) := rfl

theorem bind_ok {m : Py σ α} {k : α → Py σ β} {s s' : σ} {a : α} (h : m s = .ok a s') :
    (m >>= k) s = k a s' := by
  rw [bind_apply, h]

theorem bind_error {m : Py σ α} {k : α → Py σ β} {s s' : σ} {f : Fault}
    (h : m s = .error f s') : (m >>= k) s = .error f s' := by
  rw [bind_apply, h]

/-- A loop whose every turn returns. -/
theorem forM_ok {code : α → Py σ PUnit} {f : σ → α → σ}
    (h : ∀ a s, code a s = .ok ⟨⟩ (f s a)) (l : List α) (s : σ) :
    l.forM code s = .ok ⟨⟩ (l.foldl f s) := by
  induction l generalizing s with
  | nil => rfl
  | cons a l ih =>
    rw [List.forM_eq_forM, List.forM_cons, bind_ok (h a s), List.foldl_cons]
    exact ih (f s a)

/-- A loop returns when its turns do, as long as they keep the invariant `I`. -/
theorem forM_returns {I : σ → Prop} {code : α → Py σ PUnit} {l : List α}
    (h : ∀ a ∈ l, ∀ s, I s → ∃ s', code a s = .ok ⟨⟩ s' ∧ I s') {s : σ} (hs : I s) :
    ∃ s', l.forM code s = .ok ⟨⟩ s' ∧ I s' := by
  induction l generalizing s with
  | nil => exact ⟨s, rfl, hs⟩
  | cons a l ih =>
    obtain ⟨t, hrun, ht⟩ := h a List.mem_cons_self s hs
    rw [List.forM_eq_forM, List.forM_cons, bind_ok hrun]
    exact ih (fun b hb => h b (List.mem_cons_of_mem _ hb)) ht

/-- A loop that only reads and computes a value. -/
theorem foldlM_eq {code : β → α → Py σ β} {f : β → α → β} {l : List α} {s : σ}
    (h : ∀ a ∈ l, ∀ b, code b a s = .ok (f b a) s) (b : β) :
    l.foldlM code b s = .ok (l.foldl f b) s := by
  induction l generalizing b with
  | nil => rfl
  | cons a l ih =>
    rw [List.foldlM_cons, bind_ok (h a List.mem_cons_self b), List.foldl_cons]
    exact ih (fun a ha => h a (List.mem_cons_of_mem _ ha)) (f b a)

/-- A loop that only reads and computes a list. -/
theorem mapM_returns {code : α → Py σ β} {f : α → β} {l : List α} {s : σ}
    (h : ∀ a ∈ l, code a s = .ok (f a) s) : l.mapM code s = .ok (l.map f) s := by
  induction l with
  | nil => rfl
  | cons a l ih =>
    rw [List.mapM_cons, bind_ok (h a List.mem_cons_self),
      bind_ok (ih (fun a ha => h a (List.mem_cons_of_mem _ ha)))]
    rfl

theorem tryExcept_ok {body : Py σ α} {handler : PyException → Py σ α} {s s' : σ} {a : α}
    (h : body s = .ok a s') : tryExcept body handler s = .ok a s' := by
  simp [tryExcept, h]

theorem zoom_ok {part : σ → τ} {put : σ → τ → σ} {code : Py τ α} {s : σ} {t : τ} {a : α}
    (h : code (part s) = .ok a t) : zoom part put code s = .ok a (put s t) := by
  simp [zoom, h]

theorem zoom_error {part : σ → τ} {put : σ → τ → σ} {code : Py τ α} {s : σ} {t : τ}
    {f : Fault} (h : code (part s) = .error f t) :
    zoom part put code s = .error f (put s t) := by
  simp [zoom, h]

/-! ## What every run keeps -/

/-- The code keeps `I`, whether it returns or faults. -/
def Keeps (I : σ → Prop) (code : Py σ α) : Prop := ∀ s, I s → I (finalState (code s))

section Keeps

variable {I : σ → Prop}

theorem Keeps.pure (a : α) : Keeps I (pure a : Py σ α) := fun _ hs => hs

theorem Keeps.throw (f : Fault) : Keeps I (throw f : Py σ α) := fun _ hs => hs

theorem Keeps.bind {m : Py σ α} {k : α → Py σ β} (hm : Keeps I m) (hk : ∀ a, Keeps I (k a)) :
    Keeps I (m >>= k) := by
  intro s hs
  have hmid := hm s hs
  rw [bind_apply]
  cases hrun : m s with
  | ok a s' =>
    rw [hrun] at hmid
    exact hk a s' hmid
  | error f s' =>
    rw [hrun] at hmid
    exact hmid

/-- Code that first reads the state is judged where it reads it. -/
theorem Keeps.get_bind {k : σ → Py σ β} (hk : ∀ s, I s → I (finalState (k s s))) :
    Keeps I (get >>= k) := by
  intro s hs
  rw [bind_ok (get_apply s)]
  exact hk s hs

theorem Keeps.modify {f : σ → σ} (hf : ∀ s, I s → I (f s)) :
    Keeps I (modify f : Py σ PUnit) := fun s hs => hf s hs

theorem Keeps.assert (p : Prop) [Decidable p] : Keeps I (assert p : Py σ PUnit) := by
  unfold Py.assert
  split
  · exact Keeps.pure _
  · exact Keeps.throw _

theorem Keeps.ofOption (e : PyException) (o : Option α) : Keeps I (ofOption e o : Py σ α) := by
  cases o with
  | none => exact Keeps.throw _
  | some a => exact Keeps.pure a

theorem Keeps.forM {code : α → Py σ PUnit} (hcode : ∀ a, Keeps I (code a)) (l : List α) :
    Keeps I (l.forM code) := by
  induction l with
  | nil => exact Keeps.pure _
  | cons a l ih => exact (hcode a).bind (fun _ => ih)

theorem Keeps.tryExcept {body : Py σ α} {handler : PyException → Py σ α} (hbody : Keeps I body)
    (hhandler : ∀ e, Keeps I (handler e)) : Keeps I (tryExcept body handler) := by
  intro s hs
  have hmid := hbody s hs
  unfold Py.tryExcept
  cases hrun : body s with
  | ok a s' =>
    rw [hrun] at hmid
    exact hmid
  | error f s' =>
    rw [hrun] at hmid
    -- only an exception reaches the handler
    cases f with
    | exception e => exact hhandler e s' hmid
    | cancelled => exact hmid
    | hang => exact hmid

/-- Code on a part of the state that the invariant does not look at. -/
theorem Keeps.zoom {part : σ → τ} {put : σ → τ → σ} (hput : ∀ s t, I s → I (put s t))
    (code : Py τ α) : Keeps I (zoom part put code) := by
  intro s hs
  rw [zoom_apply]
  cases code (part s) with
  | ok a t => exact hput s t hs
  | error f t => exact hput s t hs

/-- The code keeps `I`, unless it faults with `fault`. -/
def KeepsUnless (fault : Fault) (I : σ → Prop) (code : Py σ α) : Prop :=
  ∀ s, I s → (∃ t, code s = .error fault t) ∨ I (finalState (code s))

theorem Keeps.unless {code : Py σ α} (h : Keeps I code) (fault : Fault) :
    KeepsUnless fault I code := fun s hs => Or.inr (h s hs)

theorem KeepsUnless.bind {fault : Fault} {m : Py σ α} {k : α → Py σ β}
    (hm : KeepsUnless fault I m) (hk : ∀ a, KeepsUnless fault I (k a)) :
    KeepsUnless fault I (m >>= k) := by
  intro s hs
  have hmid := hm s hs
  rw [bind_apply]
  cases hrun : m s with
  | ok a s' =>
    rw [hrun] at hmid
    exact hk a s' (hmid.resolve_left (fun ⟨_, h⟩ => by cases h))
  | error f s' =>
    rw [hrun] at hmid
    exact hmid.imp (fun ⟨t, h⟩ => ⟨t, by cases h; rfl⟩) id

theorem KeepsUnless.forM {fault : Fault} {code : α → Py σ PUnit} {l : List α}
    (hcode : ∀ a ∈ l, KeepsUnless fault I (code a)) : KeepsUnless fault I (l.forM code) := by
  induction l with
  | nil => exact (Keeps.pure _).unless fault
  | cons a l ih =>
    rw [List.forM_eq_forM, List.forM_cons]
    exact (hcode a List.mem_cons_self).bind
      (fun _ => ih (fun b hb => hcode b (List.mem_cons_of_mem _ hb)))

end Keeps

/-! ## What always returns -/

/-- From a state of `I` the code returns, and leaves a state of `I`. -/
def Returns (I : σ → Prop) (code : Py σ α) : Prop := ∀ s, I s → ∃ a s', code s = .ok a s' ∧ I s'

section Returns

variable {I : σ → Prop}

theorem Returns.pure (a : α) : Returns I (pure a : Py σ α) := fun s hs => ⟨a, s, rfl, hs⟩

theorem Returns.modifyGet {f : σ → α × σ} (hf : ∀ s, I s → I (f s).2) :
    Returns I (modifyGet f : Py σ α) := fun s hs => ⟨(f s).1, (f s).2, rfl, hf s hs⟩

theorem Returns.modify {f : σ → σ} (hf : ∀ s, I s → I (f s)) :
    Returns I (modify f : Py σ PUnit) := fun s hs => ⟨⟨⟩, f s, rfl, hf s hs⟩

theorem Returns.bind {m : Py σ α} {k : α → Py σ β} (hm : Returns I m)
    (hk : ∀ a, Returns I (k a)) : Returns I (m >>= k) := by
  intro s hs
  obtain ⟨a, s₁, hrun, hs₁⟩ := hm s hs
  obtain ⟨b, s₂, hrun₂, hs₂⟩ := hk a s₁ hs₁
  exact ⟨b, s₂, (bind_ok hrun).trans hrun₂, hs₂⟩

theorem Returns.ite {p : Prop} [Decidable p] {m m' : Py σ α} (hm : Returns I m)
    (hm' : Returns I m') : Returns I (if p then m else m') := by
  split
  · exact hm
  · exact hm'

theorem Returns.forM {code : α → Py σ PUnit} {l : List α} (hcode : ∀ a ∈ l, Returns I (code a)) :
    Returns I (l.forM code) := by
  induction l with
  | nil => exact Returns.pure _
  | cons a l ih =>
    have hrest := ih (fun b hb => hcode b (List.mem_cons_of_mem a hb))
    exact (hcode a List.mem_cons_self).bind (fun _ => hrest)

/-- Code on a part of the state, for an invariant of this part. -/
theorem Returns.zoom {J : τ → Prop} {part : σ → τ} {put : σ → τ → σ} {code : Py τ α}
    (hcode : Returns J code) (hpart : ∀ s, I s → J (part s))
    (hput : ∀ s t, I s → J t → I (put s t)) : Returns I (zoom part put code) := by
  intro s hs
  obtain ⟨a, t, hrun, ht⟩ := hcode (part s) (hpart s hs)
  exact ⟨a, put s t, zoom_ok hrun, hput s t hs ht⟩

end Returns

end Py
