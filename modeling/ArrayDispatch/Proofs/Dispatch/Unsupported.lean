import ArrayDispatch.Proofs.Dispatch.Representative
import ArrayDispatch.Proofs.Stock.Lawful

/-!
Operations that a type does not support. A call on plain arrays asks the table of their type. A call
on tensors leaves this to the call on the backing arrays, so the table of a tensor type is not
asked.
-/

namespace ArrayDispatch

theorem Call.isUnordered_of_op_ne {c : Call} (h : c.op ≠ .richcmp) (d : Descriptor) :
    c.isUnordered d = false := by
  unfold isUnordered
  split
  · contradiction
  · rfl

namespace Registry

variable {r : Registry} {self : Dispatcher} {c : Call} {held us vs : List Value} {site : Site}
  {d b : Descriptor} {info : TypeInfo}

/-- Scalars are not unified with anything but arrays, so an array was among the operands. -/
theorem exists_target_of_unified (hu : r.unifier = .promote)
    (hvs : ∀ v ∈ vs, r.types.WellFormed v) {a : Object} (ha : .array a ∈ vs)
    (hlt : c.mode.representative < vs.length) (h : r.unified c site vs = .ok us) :
    ∃ d, r.types.target (vs.drop c.mode.representative) = .ok d := by
  rcases unified_cases h with ⟨rfl, htags⟩ | h
  · obtain ⟨d, hd, htype⟩ := exists_type?_of_tag_eq hvs ha htags
    exact ⟨d, TypeTable.target_of_type? hd (fun v hv => htype v (List.mem_of_mem_drop hv))
      (List.ne_nil_of_mem (Call.representative_mem_drop hlt))⟩
  · rw [hu] at h
    by_cases hm : c.mode = .select
    · obtain ⟨mask, values, rfl, _⟩ := exists_cons_of_select hm hlt
      rw [hm] at h ⊢
      obtain ⟨d, _, _, htarget, _⟩ := Unifier.exists_of_promote_select h
      exact ⟨d, htarget⟩
    · rw [Unifier.representative_eq_zero hm]
      obtain ⟨d, htarget, _⟩ := Unifier.exists_of_promote hm h
      exact ⟨d, htarget⟩

section Plain

variable (hm : c.mode ≠ .richCompare) (hop : c.op ≠ .richcmp) (h : r.Promoted c d us)
  (hp : d.isTensor = false) (hentry : d.op c.op = .unsupported)

include hm hop h hp hentry

theorem resolve_of_unsupported :
    r.resolve self c held site us vs = .unsupported vs := by
  have htarget : r.types.descriptor (c.resultType d) = .ok d := by
    rw [Call.resultType, if_neg hm, TypeTable.descriptor_eq_ok_iff]
    exact h.registered
  rw [h.resolve_eq, hp]
  simp only [Bool.false_eq_true, if_false, arrayCall, Call.isUnordered_of_op_ne hop, htarget,
    hentry]

theorem step_of_unsupported (hu : r.unifier = .promote) (hc : c.Takes us.length) {ws : List Value}
    (hws : r.unified c site us = .ok ws) : r.step self c held site us = .unsupported us := by
  obtain ⟨a, _, hmem, _⟩ := h.exists_representative
  rw [step_of_unified hc hmem hws,
    resolve_of_unsupported hm hop (h.of_unified hu hws) hp hentry]
  rfl

end Plain

/-- A tensor type supports what its backing type supports. -/
theorem tensorCall_of_unsupported (hs : r.types.Sound) (hu : r.unifier = .promote)
    (hm : c.mode ≠ .richCompare) (hop : c.op ≠ .richcmp) (h : r.Promoted c (.tensor info b) us)
    (hback : ∀ u ∈ us.drop c.mode.representative, u.BackedBy b) (hc : c.inner.Takes us.length)
    (hentry : b.op c.op = .unsupported) {arrays ws : List Value} {shape : List Nat}
    (hx : r.types.expandAll (site.child 2) us = .ok (arrays, shape))
    (hws : r.unified c.inner (site.child 3) arrays = .ok ws) :
    r.tensorCall (r.step self) c held site us vs = .unsupported vs := by
  obtain ⟨hlen, hp⟩ := h.of_expandAll hs hback hx
  have hmode : c.inner.mode ≠ .richCompare := Call.inner_mode_ne_of_ne hm (by decide)
  have hplain : b.isTensor = false := ((hs.placed_of_registered h.registered).component b rfl).2
  have hstep : r.step self { c with mode := c.mode.nested } [] (site.child 3) arrays = _ :=
    step_of_unsupported hmode hop hp hplain hentry hu (hlen ▸ hc) hws
  unfold tensorCall
  rw [h.tensorParts_eq rfl, hx]
  simp only [Except.map, hstep]
  rfl

end Registry

theorem Call.Takes.inner {c : Call} {n : Nat} (h : c.Takes n) : c.inner.Takes n := by
  refine ⟨h.pos, h.le_three, fun m hm => h.count m ?_⟩
  obtain ⟨mode, op, slot⟩ := c
  cases mode <;> exact hm

/-- A call that is no comparison is unsupported where the table of the type that represents its
operands says so. For a tensor type it is the table of the backing type that decides, as soon as the
operands have been brought to one shape; the backing arrays of a selection, whose mask may have
another type, must be unified before. The operands are left alone. -/
theorem apply_unsupported {r : Registry} (hr : r.Built) (hu : r.unifier = .promote) {c : Call}
    (hm : c.mode ≠ .richCompare) (hop : c.op ≠ .richcmp) {vs us : List Value}
    (hvs : ∀ v ∈ vs, r.types.WellFormed v) (hc : c.Takes vs.length) {site : Site}
    (hus : r.unified c site vs = .ok us) {d : Descriptor}
    (hd : (c.representative us).type?.bind r.types.descriptor? = some d) (held : List Value) :
    (d.isTensor = false → d.op c.op = .unsupported → r.apply c held site vs = .unsupported vs) ∧
      ∀ info b, d = .tensor info b → b.op c.op = .unsupported → ∀ arrays shape,
        r.types.expandAll (site.child 2) us = .ok (arrays, shape) →
        (c.mode = .select → ∃ ws, r.unified c.inner (site.child 3) arrays = .ok ws) →
        r.apply c held site vs = .unsupported vs := by
  obtain ⟨k, hk⟩ := r.exists_apply_eq vs
  simp only [hk]
  rcases Value.exists_scalars_or_array vs with ⟨ss, rfl⟩ | ⟨a, ha⟩
  · rw [Registry.eq_of_unified_scalars hu hus, Call.representative_scalars] at hd
    cases hd
  · obtain ⟨d', htarget⟩ := Registry.exists_target_of_unified hu hvs ha hc.representative_lt hus
    obtain ⟨hlen, hp, hback⟩ := Registry.promoted_of_target hu hvs hc.representative_lt htarget hus
    obtain ⟨b, hb, _, hfind⟩ := hp.exists_representative
    obtain rfl : d' = d := by
      rw [hb] at hd
      exact Option.some.inj (hfind.symm.trans hd)
    rw [Registry.step_of_unified hc ha hus]
    refine ⟨fun hplain hentry => ?_, ?_⟩
    · rw [Registry.resolve_of_unsupported hm hop hp hplain hentry]
      rfl
    · rintro info b rfl hentry arrays shape hx hselect
      have hws : ∃ ws, r.unified c.inner (site.child 3) arrays = .ok ws := by
        by_cases hmode : c.mode = .select
        · exact hselect hmode
        · -- without a mask all operands have the representative type, and are left as they are
          have hinner := (hp.of_expandAll hr.sound (hback info b rfl) hx).2
          exact ⟨arrays, hinner.unified_eq (Call.inner_mode_ne_of_ne hmode (by decide))⟩
      obtain ⟨ws, hws⟩ := hws
      rw [hp.resolve_eq]
      simp only [Descriptor.isTensor, if_true]
      rw [Registry.tensorCall_of_unsupported hr.sound hu hm hop hp (hback info b rfl)
        (hlen ▸ hc.inner) hentry hx hws]
      rfl

/-! ## Sums of tensors -/

namespace Stock

def maskTensor (site : Site) (bs : List Bool) (shape : List Nat) : Value :=
  .array ⟨site, tensorXb, .tensor ⟨site.child 0, boolX, .flat ⟨.bool, bs⟩⟩ shape⟩

theorem wellFormed_maskTensor (site : Site) {bs : List Bool} {shape : List Nat}
    (h : Shape.count shape = .ok bs.length) :
    registry.types.WellFormed (maskTensor site bs shape) := by
  have hd : registry.types.Registered maskTensorsType := rfl
  exact .of_isInstance hd (Descriptor.isInstance_tensor ⟨_, rfl, rfl, rfl, trivial⟩ h)

/-- Tensors of integers whose own table does not support sums. -/
def countDeclarations : List TypeDecl :=
  [(TypeDecl.tensor "Counts" int32X).withOps [.add] .unsupported]

def countRegistry : Registry := (registerAll registry countDeclarations).toOption.getD registry

theorem registerAll_counts : registerAll registry countDeclarations = .ok countRegistry := rfl

theorem built_countRegistry : countRegistry.Built :=
  built_registerAll built_registry registerAll_counts

def counts : Descriptor :=
  .tensor ⟨"Counts", ⟨14⟩, none, fun op => if op ∈ [Op.add] then .unsupported else .generic, .none,
    .stock⟩ (.flat integersInfo (.integer .int32) .dynamic)

def countTensor (site : Site) (xs : List (IntType.Word .int32)) (shape : List Nat) : Value :=
  .array ⟨site, counts.key, .tensor (⟨site.child 0, int32X, .flat ⟨.integer .int32, xs⟩⟩) shape⟩

theorem isInstance_countTensor (site : Site) {xs : List (IntType.Word .int32)} {shape : List Nat}
    (h : Shape.count shape = .ok xs.length) : counts.IsInstance (countTensor site xs shape) :=
  Descriptor.isInstance_tensor ⟨_, rfl, rfl, rfl, trivial⟩ h

end Stock

/-- Tensors of truth values are not added, since truth values are not. -/
theorem apply_unsupported_maskTensors :
    let vs := [Stock.maskTensor ⟨[0]⟩ [true, false] [2], Stock.maskTensor ⟨[1]⟩ [true] []]
    let c : Call := ⟨.normal, .add, .method⟩
    (∀ v ∈ vs, Stock.registry.types.WellFormed v) ∧ c.Takes vs.length ∧
      Stock.registry.unified c ⟨[2]⟩ vs = .ok vs ∧
      (c.representative vs).type?.bind Stock.registry.types.descriptor? =
        some Stock.maskTensorsType ∧
      Stock.masksType.op .add = .unsupported ∧
      Stock.registry.apply c [] ⟨[2]⟩ vs = .unsupported vs := by
  intro vs c
  have hvs : ∀ v ∈ vs, Stock.registry.types.WellFormed v := by
    simp only [vs, List.forall_mem_cons]
    exact ⟨Stock.wellFormed_maskTensor _ rfl, Stock.wellFormed_maskTensor _ rfl,
      List.forall_mem_nil _⟩
  have hc : c.Takes vs.length := Call.takes_of_operandCount? rfl (by decide) (by decide)
  have hus : Stock.registry.unified c ⟨[2]⟩ vs = .ok vs := rfl
  obtain ⟨_, htensors⟩ := apply_unsupported Stock.built_registry rfl (c := c) (by decide)
    (by decide) hvs hc hus (d := Stock.maskTensorsType) rfl []
  exact ⟨hvs, hc, hus, rfl, rfl,
    htensors _ Stock.masksType rfl rfl _ _ rfl fun h => absurd h (by decide)⟩

/-- Counts are added although the table of their type does not support it: that of the integers
behind them does. -/
theorem apply_add_counts :
    let vs := [Stock.countTensor ⟨[0]⟩ [1, 2] [2], Stock.countTensor ⟨[1]⟩ [3, 4] [2]]
    let c : Call := ⟨.normal, .add, .method⟩
    Stock.countRegistry.Built ∧ Stock.countRegistry.unifier = .promote ∧
      Stock.countRegistry.types.Registered Stock.counts ∧ (∀ v ∈ vs, Stock.counts.IsInstance v) ∧
      vs.length = Op.add.arity ∧ Stock.countRegistry.unified c ⟨[2]⟩ vs = .ok vs ∧
      Stock.counts.op .add = .unsupported ∧
      (Stock.countRegistry.apply c [] ⟨[2]⟩ vs).result =
        .ok (.value (.array ⟨⟨[2]⟩, Stock.counts.key,
          .tensor ⟨⟨[3, 2]⟩, Stock.int32X, .flat ⟨.integer .int32, [4, 6]⟩⟩ [2]⟩)) := by
  intro vs c
  refine ⟨Stock.built_countRegistry, rfl, rfl, ?_, rfl, rfl, rfl, rfl⟩
  simp only [vs, List.forall_mem_cons]
  exact ⟨Stock.isInstance_countTensor _ rfl, Stock.isInstance_countTensor _ rfl,
    List.forall_mem_nil _⟩

end ArrayDispatch
