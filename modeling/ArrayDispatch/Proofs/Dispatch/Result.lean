import ArrayDispatch.Proofs.Dispatch.Fitting
import ArrayDispatch.Proofs.Dispatch.InPlace

/-!
What calls on a lawful table lead to: a result of the type that the call asks for, and operands that
are still well-formed.
-/

namespace ArrayDispatch

namespace Call

/-- A call through the implementations of the types: one of a method, a selection or a
comparison. -/
inductive Proper : Call → Prop
  | normal {op : Op} (hop : op ≠ .richcmp) : Proper ⟨.normal, op, .method⟩
  | inPlace {op : Op} (hop : op ≠ .richcmp) : Proper ⟨.inPlace, op, .method⟩
  | select : Proper ⟨.select, .select, .method⟩
  | compare (cmp : Comparison) : Proper ⟨.richCompare, .richcmp, .compare cmp⟩

/-- The call that is dispatched on elements and on backing arrays. -/
def inner (c : Call) : Call := ⟨c.mode.nested, c.op, c.slot⟩

variable {c : Call} {d m : Descriptor}

namespace Proper

theorem inner (h : c.Proper) : c.inner.Proper := by
  cases h with
  | normal hop => exact .normal hop
  | inPlace hop => exact .normal hop
  | select => exact .select
  | compare cmp => exact .compare cmp

theorem richCompare_iff (h : c.Proper) : c.mode = .richCompare ↔ c.op = .richcmp := by
  cases h <;> simp_all

theorem op_eq_select (h : c.Proper) (hm : c.mode = .select) : c.op = .select := by
  cases h <;> simp_all

end Proper

theorem inner_mode_ne (c : Call) : c.inner.mode ≠ .inPlace := by
  change c.mode.nested ≠ .inPlace
  cases c.mode <;> decide

theorem inner_eq (h : c.mode ≠ .inPlace) : c.inner = c := by
  obtain ⟨mode, op, slot⟩ := c
  cases mode with
  | inPlace => exact absurd rfl h
  | _ => rfl

theorem inner_mode_ne_of_ne {c : Call} {m : Mode} (h : c.mode ≠ m) (hm : m ≠ .normal) :
    c.inner.mode ≠ m := by
  change c.mode.nested ≠ m
  cases hmode : c.mode with
  | inPlace => exact hm.symm
  | _ =>
    rw [hmode] at h
    exact h

theorem inner_representative (c : Call) : c.inner.mode.representative = c.mode.representative := by
  obtain ⟨mode, op, slot⟩ := c
  cases mode <;> rfl

/-- The results of a call on the type `d` have the type `m`. -/
def Targets (c : Call) (d m : Descriptor) : Prop :=
  if c.mode = .richCompare then d.HasMask m else m = d

namespace Targets

theorem cases (h : c.Targets d m) :
    c.mode = .richCompare ∧ d.HasMask m ∨ c.mode ≠ .richCompare ∧ m = d := by
  unfold Targets at h
  split at h
  · exact .inl ⟨by assumption, h⟩
  · exact .inr ⟨by assumption, h⟩

theorem parallels (h : c.Targets d m) : d.Parallels m := by
  rcases h.cases with ⟨_, h⟩ | ⟨_, h⟩
  · exact .inr h
  · exact .inl h

theorem key_eq (h : c.Targets d m) : m.key = c.resultType d := by
  unfold resultType
  rcases h.cases with ⟨hm, h⟩ | ⟨hm, rfl⟩
  · rw [if_pos hm, h.key_eq]
  · rw [if_neg hm]

theorem eq_of_ne (h : c.Targets d m) (hm : c.mode ≠ .richCompare) : m = d := by
  rcases h.cases with ⟨hm', _⟩ | ⟨_, h⟩
  · exact absurd hm' hm
  · exact h

theorem inner_iff : c.inner.Targets d m ↔ c.Targets d m := by
  obtain ⟨mode, op, slot⟩ := c
  cases mode <;> exact Iff.rfl

theorem exists_flat {info : TypeInfo} {kind : Kind} {extent : Extent}
    (h : c.Targets (.flat info kind extent) m) :
    ∃ info' extent', m = .flat info' (if c.mode = .richCompare then .bool else kind) extent' := by
  rcases h.cases with ⟨hm, h⟩ | ⟨hm, rfl⟩
  · rw [if_pos hm]
    cases h with
    | flat _ _ => exact ⟨_, _, rfl⟩
  · rw [if_neg hm]
    exact ⟨_, _, rfl⟩

theorem exists_nested {info : TypeInfo} {element : Descriptor} {extent : Extent}
    (h : c.Targets (.nested info element extent) m) :
    ∃ info' element' extent', m = .nested info' element' extent' ∧
      c.inner.Targets element element' := by
  simp only [inner_iff]
  rcases h.cases with ⟨hm, h⟩ | ⟨hm, rfl⟩
  · cases h with
    | nested _ _ hi => exact ⟨_, _, _, rfl, by rwa [Targets, if_pos hm]⟩
  · exact ⟨_, _, _, rfl, by rw [Targets, if_neg hm]⟩

theorem exists_tensor {info : TypeInfo} {backing : Descriptor}
    (h : c.Targets (.tensor info backing) m) :
    ∃ info' backing', m = .tensor info' backing' ∧ c.inner.Targets backing backing' := by
  simp only [inner_iff]
  rcases h.cases with ⟨hm, h⟩ | ⟨hm, rfl⟩
  · cases h with
    | tensor _ hb => exact ⟨_, _, rfl, by rwa [Targets, if_pos hm]⟩
  · exact ⟨_, _, rfl, by rw [Targets, if_neg hm]⟩

end Targets

theorem exists_targets {t : TypeTable} (hl : t.Lawful) (c : Call) (hd : t.Registered d) :
    ∃ m, t.Registered m ∧ c.Targets d m := by
  by_cases hm : c.mode = .richCompare
  · obtain ⟨m, hreg, hmask⟩ := hl.hasMask d (TypeTable.Regular.mem_of_registered hd)
    exact ⟨m, hreg, by rwa [Targets, if_pos hm]⟩
  · exact ⟨d, hd, by rw [Targets, if_neg hm]⟩

end Call

/-- A result on the operands `us`: an instance of the type `m` which, unless it is a tensor, has the
length on which they agree. -/
structure Returned (m : Descriptor) (us : List Value) (w : Value) : Prop where
  isInstance : m.IsInstance w
  length?_eq : m.isTensor = false → ∀ lens n, Lengths us lens → Reconciles lens n →
    w.length? = some n

/-- Calls that do not work in place, on operands that fit a type, have results of the type that they
ask for. -/
def Dispatcher.Faithful (t : TypeTable) (self : Dispatcher) : Prop :=
  ∀ c held site d m us w, c.Proper → c.mode ≠ .inPlace → t.Registered d → t.Registered m →
    c.Targets d m → Fitting t c.mode d us → (self c held site us).result = .ok (.value w) →
    Returned m us w

/-- Calls `c` on operands that fit the type `d` have results of the type `m`. -/
def Dispatcher.Returns (t : TypeTable) (self : Dispatcher) (c : Call) (d m : Descriptor) : Prop :=
  ∀ held site us w, Fitting t c.mode d us → (self c held site us).result = .ok (.value w) →
    Returned m us w

theorem Dispatcher.Faithful.returns {t : TypeTable} {self : Dispatcher} (h : self.Faithful t)
    {c : Call} {d m : Descriptor} (hc : c.Proper) (hmode : c.mode ≠ .inPlace)
    (hd : t.Registered d) (hm : t.Registered m) (htarget : c.Targets d m) : self.Returns t c d m :=
  fun held site us w hfit hw => h c held site d m us w hc hmode hd hm htarget hfit hw

namespace Outcome

/-- A value that is returned has the property `P`, and all operands are well-formed afterwards. -/
structure Keeps (t : TypeTable) (P : Value → Prop) (o : Outcome) : Prop where
  value : ∀ w, o.result = .ok (.value w) → P w
  operands : ∀ v ∈ o.operands, t.WellFormed v

variable {t : TypeTable} {P : Value → Prop} {o : Outcome} {vs : List Value}

theorem keeps_of_kept (hvs : ∀ v ∈ vs, t.WellFormed v) (ho : o.operands = vs)
    (hr : o.value? = none) : o.Keeps t P :=
  ⟨fun w hw => absurd hw (result_ne_of_value? hr w), ho ▸ hvs⟩

theorem Keeps.within (h : o.Keeps t P) (f : Frame) : (o.within f).Keeps t P := by
  refine ⟨fun w hw => h.value w ?_, h.operands⟩
  rwa [result_within, escaping_eq_ok_iff] at hw

theorem Keeps.imp {Q : Value → Prop} (h : o.Keeps t P) (hPQ : ∀ w, P w → Q w) : o.Keeps t Q :=
  ⟨fun w hw => hPQ w (h.value w hw), h.operands⟩

end Outcome

theorem wellFormed_replaceObject {t : TypeTable} {vs : List Value}
    (hvs : ∀ v ∈ vs, t.WellFormed v) {new : Object} (hnew : t.WellFormed (.array new))
    (old : Site) : ∀ v ∈ replaceObject old new vs, t.WellFormed v := by
  intro v hv
  obtain ⟨u, hu, rfl⟩ := List.mem_map.mp hv
  split
  · exact hnew
  · exact hvs u hu

theorem finish_keeps {t : TypeTable} {m : Descriptor} (hm : t.Registered m) {us vs : List Value}
    (hvs : ∀ v ∈ vs, t.WellFormed v) {result : Object} (h : Returned m us (.array result))
    (held : List Value) (target : Option Object) :
    (finish held vs target result).Keeps t (Returned m us) := by
  have hreturned : ∀ b : Object, b.type = result.type → b.payload = result.payload →
      Returned m us (.array b) := by
    intro b htype hpayload
    obtain ⟨hi, hlen⟩ := h
    refine ⟨?_, fun hp lens n hl hr => ?_⟩
    · rw [Descriptor.isInstance_array] at hi ⊢
      rw [htype, hpayload]
      exact hi
    · have hsame : b.length = result.length := congrArg Payload.length hpayload
      exact (congrArg some hsame).trans (hlen hp lens n hl hr)
  cases target with
  | none =>
    refine ⟨fun w hw => ?_, hvs⟩
    cases hw
    exact h
  | some a =>
    obtain ⟨b, hb, htype, hpayload⟩ := exists_finish_some held vs a result
    have hret := hreturned b htype hpayload
    rw [hb]
    refine ⟨fun w hw => ?_, wellFormed_replaceObject hvs (.of_isInstance hm hret.isInstance) a.id⟩
    cases hw
    exact hret

end ArrayDispatch
