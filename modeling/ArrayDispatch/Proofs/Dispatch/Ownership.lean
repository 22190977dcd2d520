import ArrayDispatch.Proofs.Dispatch.InPlace
import ArrayDispatch.Proofs.Types.Making

/-!
What calls make. Functions and kernels cannot forge references, so the result of a call refers to
what its operands refer to, to values that functions have captured, and to new objects. This holds
for nested calls by induction on the bound of their depth.
-/

namespace ArrayDispatch

/-! ## Functions and kernels that forge nothing -/

/-- What a counterpart returns is made of its arguments and of the values `captured`. -/
def Counterpart.Tame (captured : List Value) (cp : Counterpart) : Prop :=
  ∀ site args v, cp site args = .ok v → Made (captured ++ args) site.below [v]

def ElementCall.Tame (captured : List Value) (call : ElementCall) : Prop :=
  ∀ c, Counterpart.Tame captured fun site args => call site c args

/-- A function that has captured some values and otherwise works with its arguments only. -/
def ElementFunction.Tame (captured : List Value) (f : ElementFunction) : Prop :=
  ∀ t call, ElementCall.Tame captured call → Counterpart.Tame captured (f t call)

/-- What a kernel puts into its result has been captured or stands in its arguments. -/
def Kernel.Tame (captured : List Value) (kernel : Kernel) : Prop :=
  ∀ op slot args p, kernel.run op slot args = .ok p →
    Made (captured ++ args.flatMap Payload.parts) ∅ p.parts

/-- The values that functions and kernels of a registry have captured are among `captured`. -/
structure Registry.Tame (captured : List Value) (r : Registry) : Prop where
  functions : ∀ entry ∈ r.functions, entry.2.Tame captured
  kernels : ∀ d ∈ r.types.types, ∀ op kernel, d.op op = .native kernel → kernel.Tame captured

/-- What a dispatcher returns is made of the operands, provided that those of a call in place are
held elsewhere. -/
def Dispatcher.Tame (captured : List Value) (self : Dispatcher) : Prop :=
  ∀ c held site vs v, (c.mode = .inPlace → vs ⊆ held) →
    (self c held site vs).result = .ok (.value v) → Made (captured ++ vs) site.below [v]

section Counterparts

variable {captured : List Value} {self : Dispatcher}

theorem Dispatcher.Tame.onElements (h : self.Tame captured) (t : TypeTable) :
    ElementCall.Tame captured (self.onElements t) := by
  intro c site args v hv
  simp only [Dispatcher.onElements] at hv
  split at hv
  · rename_i hw
    cases hv
    exact h c args site args _ (fun _ => List.Subset.refl args) hw
  · cases hv
  · cases hv

theorem Registry.Tame.counterpart {r : Registry} (hr : r.Tame captured) (h : self.Tame captured)
    {c : Call} {cp : Counterpart} (hcp : r.counterpart self c = .ok cp) : cp.Tame captured := by
  have hcall : ElementCall.Tame captured (self.onElements r.types) := h.onElements r.types
  unfold Registry.counterpart at hcp
  split at hcp
  · cases hcp
    exact hcall _
  · cases hcp
    exact hcall _
  · rename_i name _
    split at hcp
    · rename_i f hf
      cases hcp
      obtain ⟨before, after, hfunctions, _⟩ := List.lookup_eq_some_iff.mp hf
      have hmem : (name, f) ∈ r.functions := by simp [hfunctions]
      exact hr.functions _ hmem _ _ hcall
    · cases hcp

end Counterparts

/-! ### Registries that arise by registration -/

namespace Registry

variable {r r' : Registry} {captured : List Value}

theorem Tame.register (hr : r.Tame captured) {decl : TypeDecl} {key : TypeKey}
    (hdecl : ∀ op kernel, decl.ops op = .native kernel → kernel.Tame captured)
    (h : r.register decl = .ok (r', key)) : r'.Tame captured := by
  obtain ⟨⟨types, key'⟩, htypes, h⟩ := bind_eq_ok_iff.mp h
  cases h
  obtain ⟨desc, hdesc, happend, _⟩ := TypeTable.types_register htypes
  refine ⟨hr.functions, fun d hd op kernel hop => ?_⟩
  rw [happend, List.mem_append, List.mem_singleton] at hd
  rcases hd with hd | rfl
  · exact hr.kernels d hd op kernel hop
  · rw [Descriptor.op, TypeTable.info_resolve hdesc] at hop
    exact hdecl op kernel hop

end Registry

/-! ## Loops -/

namespace Loop

variable {l : Loop} {captured : List Value} {p q : Payload} {i n : ℕ}

/-- Operands that are not the storage that is written. -/
def operands (l : Loop) : List Value := l.sources.filterMap Prod.fst

variable (ha : l.types.StockAccess) (ht : l.target.info.access = .stock)

include ha ht

variable (hcp : l.counterpart.Tame captured)

include hcp

end Loop

/-! ## Expanding -/

namespace TypeTable

variable {t : TypeTable} {site : Site} {us arrays : List Value} {shape : List ℕ}

end TypeTable

/-! ## Unification -/

/-- How a resolved call on the operands `vs`, unified to `us`, ends. Its result refers to `roots`
and to new objects. If it can be moved into the object `movable`, the handles outside of the
operands decide whether that keeps its identity: those in `held` and `own`, which the call itself
holds.
Place 1 of the site is not used, since unification has made its copies there. -/
inductive Outcome.Ends (roots held us vs : List Value) (site : Site) (movable : Option Object)
    (o : Outcome) : Prop
  | kept (ho : o.operands = vs) (hv : o.value? = none)
  | returned {b : Object} (hmovable : movable = none) (ho : o.operands = vs)
    (hv : o.value? = some (.array b)) (hid : b.id = site)
    (hmade : Made roots (site.children {1}ᶜ) b.payload.parts)
  | moved {a new : Object} {own : List Value} (hmovable : movable = some a)
    (hown : own = new.payload.parts ∨ own = us.filter (·.id? ≠ some a.id))
    (hid : new.id = if uniquelyHeld (held ++ own) vs a.id then a.id else site)
    (hmade : Made roots (site.children {1}ᶜ) new.payload.parts)
    (ho : o.operands = replaceObject a.id new vs)
    (hv : ∀ v, o.value? = some v → v = .array new)

section Ends

variable {roots held us vs : List Value} {site : Site} {movable : Option Object}

theorem Outcome.value?_within (o : Outcome) (f : Frame) : (o.within f).value? = o.value? := by
  unfold value?
  rw [result_within]
  cases o.result <;> rfl

theorem Outcome.Ends.within {o : Outcome} (h : o.Ends roots held us vs site movable) (f : Frame) :
    (o.within f).Ends roots held us vs site movable := by
  have hvalue := o.value?_within f
  cases h with
  | kept ho hv => exact .kept ho (hvalue.trans hv)
  | returned hmovable ho hv hid hmade => exact .returned hmovable ho (hvalue.trans hv) hid hmade
  | moved hmovable hown hid hmade ho hv =>
    exact .moved hmovable hown hid hmade ho fun v h => hv v (hvalue.symm.trans h)

end Ends

namespace Loop

variable {l : Loop} {captured held us vs : List Value} {site : Site} {p q : Payload} {n : ℕ}
  (ha : l.types.StockAccess) (ht : l.target.info.access = .stock)
  (hcp : l.counterpart.Tame captured) (hsite : l.site = site.child 4) (hops : l.operands ⊆ us)

include ha ht hcp hsite hops

end Loop

namespace Registry

variable {r : Registry} {self : Dispatcher} {c : Call} {captured held us vs : List Value}
  {site : Site} {d : Descriptor}

section Calls

variable (ha : r.types.StockAccess) (hr : r.Tame captured) (hself : self.Tame captured)

include ha hr hself

end Calls

/-! ## Nested calls -/

end Registry

end ArrayDispatch
