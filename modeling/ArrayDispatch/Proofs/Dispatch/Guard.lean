import ArrayDispatch.Proofs.Dispatch.Representative
import ArrayDispatch.Proofs.Stock.Lawful
import ArrayDispatch.Value.Equality

/-!
The guard of ordering comparisons. It goes by the type that the operands are promoted to, and among
tensors by the type of their backing arrays. The types of the other operands are not asked.
-/

namespace ArrayDispatch

namespace Descriptor

/-- The type whose flags the guard goes by in calls on the type `d`. -/
def guarding : Descriptor → Descriptor
  | tensor _ backing => backing
  | d => d

/-- How the guard rejects a comparison on operands `us` of the type `d`. Tensors are brought to one
shape first. -/
def rejection (t : TypeTable) (site : Site) (us : List Value) : Descriptor → DispatchError
  | tensor info backing =>
    match t.expandAll (site.child 2) us with
    | .ok _ =>
      ⟨.invalidComparison, [.method backing.name .richcmp, .method info.name .richcmp]⟩
    | .error cause => ⟨cause, [.method info.name .richcmp]⟩
  | d => ⟨.invalidComparison, [.method d.name .richcmp]⟩

end Descriptor

namespace Registry

variable {r : Registry} {self : Dispatcher} {c : Call} {held us vs : List Value} {site : Site}
  {d b : Descriptor} {info : TypeInfo}

theorem arrayCall_of_isUnordered (hg : c.isUnordered d = true) :
    r.arrayCall self c held site d us vs = .failedBy vs .invalidComparison := by
  unfold arrayCall
  rw [if_pos hg]

theorem tensorCall_of_isUnordered (hs : r.types.Sound) (h : r.Promoted c (.tensor info b) us)
    (hback : ∀ u ∈ us.drop c.mode.representative, u.BackedBy b) (hm : c.mode = .richCompare)
    (hg : c.isUnordered b = true) (hc : c.Takes us.length) :
    r.tensorCall (r.step self) c held site us vs =
      match r.types.expandAll (site.child 2) us with
      | .ok _ => .failed vs ⟨.invalidComparison, [c.frame b.name]⟩
      | .error cause => .failedBy vs cause := by
  have hinner : (⟨c.mode.nested, c.op, c.slot⟩ : Call) = c := by
    obtain ⟨mode, op, slot⟩ := c
    cases hm
    rfl
  unfold tensorCall
  rw [h.tensorParts_eq rfl, hinner]
  cases hx : r.types.expandAll (site.child 2) us with
  | error cause => rfl
  | ok p =>
    obtain ⟨arrays, shape⟩ := p
    obtain ⟨hlen, hp⟩ := h.of_expandAll hs hback hx
    rw [Call.inner, hinner] at hp
    have htype : ∀ w ∈ arrays, w.type? = some b.key := by
      have htype := hp.type?_eq
      rwa [hm] at htype
    have hplain : b.isTensor = false := ((hs.placed_of_registered h.registered).component b rfl).2
    -- the arrays have the backing type as well, so nothing is unified before the guard
    simp only [Except.map, step_of_type? hp.registered htype (hlen ▸ hc), hplain,
      arrayCall_of_isUnordered hg]
    rfl

/-- A comparison on a type without an order is rejected, whatever the operands hold. -/
theorem resolve_of_forbidsOrdering (hs : r.types.Sound) {cmp : Comparison}
    (hcmp : cmp.isOrdering = true) (h : r.Promoted ⟨.richCompare, .richcmp, .compare cmp⟩ d us)
    (hback : ∀ info b, d = .tensor info b → ∀ u ∈ us, u.BackedBy b)
    (hflags : d.guarding.info.flags.forbidsOrdering = true)
    (hc : Call.Takes ⟨.richCompare, .richcmp, .compare cmp⟩ us.length) :
    (r.resolve (r.step self) ⟨.richCompare, .richcmp, .compare cmp⟩ held site us vs).within
        (.method d.name .richcmp) = .failed vs (d.rejection r.types site us) := by
  have hg : Call.isUnordered ⟨.richCompare, .richcmp, .compare cmp⟩ d.guarding = true := by
    change (cmp.isOrdering && d.guarding.info.flags.forbidsOrdering) = true
    rw [hcmp, hflags]
    rfl
  rw [h.resolve_eq]
  cases d with
  | flat info kind extent =>
    exact congrArg (·.within (.method info.name .richcmp)) (arrayCall_of_isUnordered hg)
  | nested info element extent =>
    exact congrArg (·.within (.method info.name .richcmp)) (arrayCall_of_isUnordered hg)
  | tensor info b =>
    simp only [Descriptor.isTensor, if_true, Descriptor.rejection,
      tensorCall_of_isUnordered hs h (hback info b rfl) rfl hg hc]
    cases r.types.expandAll (site.child 2) us <;> rfl

end Registry

/-- Ordering comparisons do not get past the guard where it applies: if the type that the operands
are promoted to does not admit an order, or the backing type of this type if it is a tensor type,
then an ordering comparison fails and leaves the operands alone. -/
theorem apply_ordering_rejected {r : Registry} (hr : r.Built) (hu : r.unifier = .promote)
    {vs : List Value} (hvs : ∀ v ∈ vs, r.types.WellFormed v) {d : Descriptor}
    (hd : r.types.target vs = .ok d) (hflags : d.guarding.info.flags.forbidsOrdering = true)
    {cmp : Comparison} (hcmp : cmp.isOrdering = true) (held : List Value) (site : Site) :
    let c : Call := ⟨.richCompare, .richcmp, .compare cmp⟩
    ∃ e, r.apply c held site vs = .failed vs e ∧
      ∀ us, vs.length = 2 → r.unified c site vs = .ok us → e = d.rejection r.types site us := by
  intro c
  obtain ⟨k, hk⟩ := r.exists_apply_eq vs
  rw [hk]
  by_cases htakes : c.Takes vs.length
  · obtain ⟨a, ha⟩ := TypeTable.exists_array_of_target hvs hd
    cases hus : r.unified c site vs with
    | error e =>
      rw [Registry.step_of_isArray htakes ha, hus]
      exact ⟨e, rfl, fun us _ h => by cases h⟩
    | ok us =>
      obtain ⟨hlen, hp, hback⟩ := Registry.promoted_of_target hu hvs htakes.representative_lt hd hus
      refine ⟨_, ?_, fun us' _ h => by cases h; rfl⟩
      rw [Registry.step_of_unified htakes ha hus, hp.frameOf_eq]
      exact Registry.resolve_of_forbidsOrdering hr.sound hcmp hp hback hflags (hlen ▸ htakes)
  · rw [Registry.step_of_not_takes htakes]
    refine ⟨_, rfl, fun us hlen _ => absurd ⟨by omega, by omega, fun m hm => ?_⟩ htakes⟩
    cases hm
    exact hlen.symm

/-! ## Complex numbers among floats -/

def Stock.complexArray (site : Site) (re im : Binary .single) : Value :=
  .array ⟨site, complex2f, .flat ⟨.float .single, [re, im]⟩⟩

theorem Stock.isInstance_complexArray (site : Site) (re im : Binary .single) :
    complexesType.IsInstance (complexArray site re im) :=
  ⟨_, rfl, rfl, rfl, rfl⟩

/-- A complex number before floats is not compared with them. -/
theorem apply_ordering_rejected_complex_floats :
    let vs := [Stock.complexArray ⟨[0]⟩ (.ofMagnitude false 0x40400000) .nan,
      Stock.floatArray ⟨[1]⟩ [.ofMagnitude false 0x3f800000, .ofMagnitude false 0x40000000]]
    (∀ v ∈ vs, Stock.registry.types.WellFormed v) ∧
      Stock.registry.types.target vs = .ok Stock.complexesType ∧
      Stock.complexesType.guarding.info.flags.forbidsOrdering = true ∧
      Comparison.lt.isOrdering = true ∧
      Stock.registry.apply ⟨.richCompare, .richcmp, .compare .lt⟩ [] ⟨[2]⟩ vs =
        .failed vs ⟨.invalidComparison, [.method "Complex2f" .richcmp]⟩ := by
  intro vs
  have hvs : ∀ v ∈ vs, Stock.registry.types.WellFormed v := by
    have hd : Stock.registry.types.Registered Stock.complexesType := rfl
    simp only [vs, List.forall_mem_cons]
    exact ⟨.of_isInstance hd (Stock.isInstance_complexArray _ _ _), Stock.wellFormed_floatArray _ _,
      List.forall_mem_nil _⟩
  have htarget : Stock.registry.types.target vs = .ok Stock.complexesType := rfl
  obtain ⟨e, h, he⟩ := apply_ordering_rejected Stock.built_registry rfl hvs htarget rfl
    (show Comparison.lt.isOrdering = true from rfl) [] ⟨[2]⟩
  have hok : (Stock.registry.unified ⟨.richCompare, .richcmp, .compare .lt⟩ ⟨[2]⟩
      vs).toOption.isSome = true := by decide +kernel
  cases hus : Stock.registry.unified ⟨.richCompare, .richcmp, .compare .lt⟩ ⟨[2]⟩ vs with
  | error e =>
    rw [hus] at hok
    cases hok
  | ok us =>
    rw [he us rfl hus] at h
    exact ⟨hvs, htarget, rfl, rfl, h⟩

/-- After floats, a complex number is converted to them and compared: of types of one rank the
operands are promoted to the first, and the guard does not ask for the other. -/
theorem apply_ordering_floats_complex :
    let x := Stock.floatArray ⟨[0]⟩ [.ofMagnitude false 0x3f800000, .ofMagnitude false 0x40000000]
    let z := Stock.complexArray ⟨[1]⟩ (.ofMagnitude false 0x40400000)
      (.ofMagnitude false 0x40800000)
    Stock.registry.Built ∧ Stock.registry.unifier = .promote ∧
      Stock.registry.types.StockAccess ∧ Stock.registry.types.WellFormed x ∧
      Stock.registry.types.Registered Stock.complexesType ∧ Stock.complexesType.IsInstance z ∧
      Stock.complexesType.info.flags.forbidsOrdering = true ∧ Comparison.lt.isOrdering = true ∧
      ∃ w, (Stock.registry.apply ⟨.richCompare, .richcmp, .compare .lt⟩ [] ⟨[2]⟩ [x, z]).result =
          .ok (.value w) ∧
        w.equals (.array ⟨⟨[2]⟩, Stock.boolX, .flat ⟨.bool, [true, true]⟩⟩) = true := by
  intro x z
  exact ⟨Stock.built_registry, rfl, Stock.stockAccess_registry, Stock.wellFormed_floatArray _ _,
    rfl, Stock.isInstance_complexArray _ _ _, rfl, rfl,
    Outcome.exists_of_any_value? (by decide +kernel)⟩

end ArrayDispatch
