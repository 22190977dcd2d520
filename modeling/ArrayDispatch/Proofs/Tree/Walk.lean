import ArrayDispatch.Proofs.Error.Bind
import ArrayDispatch.Tree.Walk

/-!
Runs of walks. A walk over a list goes from state to state up to the first failure, and a frame
around it is a frame around each of its steps.
-/

namespace ArrayDispatch

/-- The error after it has escaped from some frames, innermost first. -/
def DispatchError.through (e : DispatchError) (fs : List Frame) : DispatchError :=
  { e with frames := e.frames ++ fs }

namespace Walk

variable {σ α β : Type}

/-- What a walk leads to from a state: its result, and the state after it. -/
def runFrom (w : Walk σ α) (s : σ) : Dispatched α × σ := w s

def Total (visit : α → Walk σ β) : Prop := ∀ a s, ∃ b s', (visit a).runFrom s = (.ok b, s')

/-- A callback that also notes what it is given. -/
def noted (visit : α → Walk σ β) (a : α) : Walk (List α × σ) β := fun (seen, s) =>
  let (r, s') := (visit a).runFrom s
  (r, seen ++ [a], s')

/-- A callback succeeds on all members of a list in turn, from one state to another. -/
inductive Passes (visit : α → Walk σ Unit) : List α → σ → σ → Prop
  | nil (s : σ) : Passes visit [] s s
  | cons {a : α} {as : List α} {s s' s'' : σ} (h : (visit a).runFrom s = (.ok (), s'))
      (hs : Passes visit as s' s'') : Passes visit (a :: as) s s''

theorem ext {w w' : Walk σ α} (h : ∀ s, w.runFrom s = w'.runFrom s) : w = w' := funext h

/-! ## Steps -/

section Steps

variable {w : Walk σ α} {s s' : σ} {f : Frame}

@[simp] theorem runFrom_pure (a : α) (s : σ) : (pure a : Walk σ α).runFrom s = (.ok a, s) := rfl

@[simp] theorem ofAttempt_ok (a : α) : (ofAttempt (.ok a) : Walk σ α) = pure a := rfl

theorem runFrom_bind_of_ok {a : α} (h : w.runFrom s = (.ok a, s')) (k : α → Walk σ β) :
    (w >>= k).runFrom s = (k a).runFrom s' := by
  change w s = _ at h
  change (w >>= k) s = _
  simp only [bind, ExceptT.bind, ExceptT.mk, StateT.bind, h, ExceptT.bindCont]
  rfl

theorem runFrom_bind_of_error {e : DispatchError} (h : w.runFrom s = (.error e, s'))
    (k : α → Walk σ β) : (w >>= k).runFrom s = (.error e, s') := by
  change w s = _ at h
  change (w >>= k) s = _
  simp only [bind, ExceptT.bind, ExceptT.mk, StateT.bind, h, ExceptT.bindCont]
  rfl

theorem runFrom_framed (f : Frame) (w : Walk σ α) (s : σ) :
    (framed f w).runFrom s = (escaping f (w.runFrom s).1, (w.runFrom s).2) := rfl

theorem framed_bind (f : Frame) (w : Walk σ α) (k : α → Walk σ β) :
    framed f (w >>= k) = framed f w >>= fun a => framed f (k a) := by
  refine ext fun s => ?_
  rw [runFrom_framed]
  rcases h : w.runFrom s with ⟨e | a, s'⟩
  · have hf : (framed f w).runFrom s = (.error (e.within f), s') := by rw [runFrom_framed, h]; rfl
    rw [runFrom_bind_of_error h, runFrom_bind_of_error hf]
    rfl
  · have hf : (framed f w).runFrom s = (.ok a, s') := by rw [runFrom_framed, h]; rfl
    rw [runFrom_bind_of_ok h, runFrom_bind_of_ok hf, runFrom_framed]

theorem framed_of_total (h : ∀ s, ∃ a s', w.runFrom s = (.ok a, s')) : framed f w = w := by
  refine ext fun s => ?_
  obtain ⟨a, s', hs⟩ := h s
  rw [runFrom_framed, hs]
  rfl

@[simp] theorem runFrom_noted (visit : α → Walk σ β) (a : α) (seen : List α) (s : σ) :
    (noted visit a).runFrom (seen, s) =
      (((visit a).runFrom s).1, seen ++ [a], ((visit a).runFrom s).2) := rfl

theorem Total.noted {visit : α → Walk σ β} (h : Total visit) : Total (noted visit) := by
  rintro a ⟨seen, s⟩
  obtain ⟨b, s', hs⟩ := h a s
  exact ⟨b, (seen ++ [a], s'), by simp [hs]⟩

end Steps

/-! ## Frames in a row -/

/-- Failures escape from frames, innermost first. -/
def framedAll (fs : List Frame) (w : Walk σ α) : Walk σ α := fs.foldl (fun w f => framed f w) w

@[simp] theorem framedAll_nil (w : Walk σ α) : framedAll [] w = w := rfl

theorem framedAll_append_singleton (fs : List Frame) (f : Frame) (w : Walk σ α) :
    framedAll (fs ++ [f]) w = framed f (framedAll fs w) := by
  simp [framedAll]

theorem runFrom_framedAll (fs : List Frame) (w : Walk σ α) (s : σ) :
    (framedAll fs w).runFrom s =
      ((w.runFrom s).1.mapError (·.through fs), (w.runFrom s).2) := by
  induction fs generalizing w with
  | nil =>
    rw [framedAll_nil]
    rcases w.runFrom s with ⟨e | a, s'⟩ <;> simp [Except.mapError, DispatchError.through]
  | cons f fs ih =>
    change (framedAll fs (framed f w)).runFrom s = _
    rw [ih, runFrom_framed]
    rcases w.runFrom s with ⟨e | a, s'⟩ <;>
      simp [Except.mapError, DispatchError.through, DispatchError.within]

/-! ## Walks over lists -/

section Lists

variable {xs : List α} {visit : α → Walk σ Unit}

theorem framed_forM (f : Frame) (xs : List α) (visit : α → Walk σ Unit) :
    framed f (forM xs visit) = forM xs fun x => framed f (visit x) := by
  induction xs with
  | nil => rfl
  | cons x xs ih => rw [List.forM_cons, List.forM_cons, framed_bind, ih]

theorem forM_congr {visit' : α → Walk σ Unit} (h : ∀ x ∈ xs, visit x = visit' x) :
    forM xs visit = forM xs visit' := by
  induction xs with
  | nil => rfl
  | cons x xs ih =>
    rw [List.forM_cons, List.forM_cons, h x (by simp), ih fun y hy => h y (by simp [hy])]

theorem forM_flatMap (xs : List β) (f : β → List α) (visit : α → Walk σ Unit) :
    forM (xs.flatMap f) visit = forM xs fun x => forM (f x) visit := by
  induction xs with
  | nil => rfl
  | cons x xs ih => rw [List.flatMap_cons, List.forM_append, List.forM_cons, ih]

theorem forM_range {step : ℕ → Walk σ Unit} (h : ∀ i x, xs[i]? = some x → step i = visit x) :
    forM (List.range xs.length) step = forM xs visit := by
  induction xs generalizing step with
  | nil => rfl
  | cons x xs ih =>
    rw [List.length_cons, List.range_succ_eq_map, List.forM_cons, List.forM_cons, List.forM_map,
      h 0 x rfl, ih fun i y hy => h (i + 1) y hy]

theorem Passes.runFrom_forM {s s' : σ} (h : Passes visit xs s s') :
    (forM xs visit : Walk σ Unit).runFrom s = (.ok (), s') := by
  induction h with
  | nil s => rfl
  | cons h _ ih => rw [List.forM_cons, runFrom_bind_of_ok h, ih]

/-- A callback succeeds on a whole list, or fails on a first member. -/
theorem passes_or_fails (visit : α → Walk σ Unit) (xs : List α) (s : σ) :
    (∃ s', Passes visit xs s s') ∨
      ∃ before x after s₁ s₂ e, xs = before ++ x :: after ∧ Passes visit before s s₁ ∧
        (visit x).runFrom s₁ = (.error e, s₂) := by
  induction xs generalizing s with
  | nil => exact .inl ⟨s, .nil s⟩
  | cons x xs ih =>
    rcases hx : (visit x).runFrom s with ⟨e | ⟨⟩, s₁⟩
    · exact .inr ⟨[], x, xs, s, s₁, e, rfl, .nil s, hx⟩
    · rcases ih s₁ with ⟨s', hs'⟩ | ⟨before, y, after, s₂, s₃, e, rfl, hs₂, hy⟩
      · exact .inl ⟨s', .cons hx hs'⟩
      · exact .inr ⟨x :: before, y, after, s₂, s₃, e, rfl, .cons hx hs₂, hy⟩

theorem exists_passes (h : ∀ x ∈ xs, ∀ s, ∃ s', (visit x).runFrom s = (.ok (), s')) (s : σ) :
    ∃ s', Passes visit xs s s' := by
  induction xs generalizing s with
  | nil => exact ⟨s, .nil s⟩
  | cons x xs ih =>
    obtain ⟨s', hs⟩ := h x List.mem_cons_self s
    obtain ⟨s'', hs'⟩ := ih (fun y hy => h y (List.mem_cons_of_mem x hy)) s'
    exact ⟨s'', .cons hs hs'⟩

theorem Total.exists_passes (h : Total visit) (xs : List α) (s : σ) :
    ∃ s', Passes visit xs s s' := by
  refine Walk.exists_passes (fun x _ s => ?_) s
  obtain ⟨⟨⟩, s', hs⟩ := h x s
  exact ⟨s', hs⟩

theorem Total.framed_forM (h : Total visit) (f : Frame) (xs : List α) :
    framed f (forM xs visit) = forM xs visit := by
  refine framed_of_total fun s => ?_
  obtain ⟨s', hs⟩ := h.exists_passes xs s
  exact ⟨(), s', hs.runFrom_forM⟩

theorem Passes.noted {s s' : σ} (h : Passes visit xs s s') (seen : List α) :
    Passes (noted visit) xs (seen, s) (seen ++ xs, s') := by
  induction h generalizing seen with
  | nil s => simpa using Passes.nil (seen, s)
  | @cons a as s s' s'' h _ ih =>
    rw [List.append_cons]
    exact .cons (by simp [h]) (ih (seen ++ [a]))

end Lists

end Walk

end ArrayDispatch
