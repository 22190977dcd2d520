import ArrayDispatch.Proofs.Dispatch.Generic
import ArrayDispatch.Proofs.Dispatch.Tensor
import ArrayDispatch.Proofs.Scalar.Eval
import ArrayDispatch.Proofs.Stock.Registry

/-!
Operations on tensors over a flat type that takes them position by position. Such a call is refused
exactly if the shapes of the operands do not agree; if the elements of the common shape can be
counted, its result has one for every multi-index.
-/

namespace ArrayDispatch

/-- Shapes do not agree, by their ranks or by their extents. -/
def Cause.OfShapes : Cause → Prop
  | .ranks _ | .shapes _ => True
  | _ => False

theorem Cause.not_ofShapes_of_ofScalars {c : Cause} (h : c.OfScalars) : ¬c.OfShapes := by
  intro hs
  cases c <;> simp_all [OfScalars, OfShapes]

/-! ## Calls -/

namespace Registry

variable {r : Registry} {self : Dispatcher} {c : Call} {held vs : List Value} {site : Site}

theorem applyTensor_of_instances {d : Descriptor} (hd : r.types.Registered d)
    (hvs : ∀ v ∈ vs, d.IsInstance v) (hc : c.Takes vs.length) :
    r.applyTensor c held site vs =
      (r.tensorCall (r.applyWithin (r.levels vs)) c held site vs vs).within (c.frame d.name) := by
  have hle := hc.le_three
  have hrep := hc.representative_lt
  have htype : ∀ v ∈ vs, v.type? = some d.key := fun v hv => (hvs v hv).type?
  unfold applyTensor
  simp only [if_neg (show ¬(3 < vs.length ∨ vs.length ≤ c.mode.representative) by omega),
    unified_of_instances hvs, frameOf_of_type? hd htype hc]

variable {info : TypeInfo} {backing : Descriptor} (hd : r.types.Registered (.tensor info backing))
  (hvs : ∀ v ∈ vs, (Descriptor.tensor info backing).IsInstance v)

include hd hvs

theorem tensorParts_eq (hc : c.Takes vs.length) :
    r.tensorParts c site vs =
      (r.types.expandAll (site.child 2) vs).map ((Descriptor.tensor info backing), ·) := by
  obtain ⟨a, ha, _, hfind⟩ := exists_representative hd (fun v hv => (hvs v hv).type?) hc
  exact tensorParts_of_representative ha hfind

theorem tensors_of_instances : r.types.Tensors vs := fun v hv => ⟨info, backing, hd, hvs v hv⟩

theorem applyTensor_of_expandAll_eq_error (hc : c.Takes vs.length) {cause : Cause}
    (h : r.types.expandAll (site.child 2) vs = .error cause) :
    r.applyTensor c held site vs = (Outcome.failedBy vs cause).within (c.frame info.name) := by
  rw [applyTensor_of_instances hd hvs hc]
  unfold tensorCall
  rw [tensorParts_eq hd hvs hc, h]
  rfl

end Registry

/-- A call on tensors over a flat type, of the common shape `dst`, has failed as the evaluation of
the scalars at one multi-index, or made a tensor that stores the values of those at all of them. -/
inductive Entrywise (op : Op) (info flatInfo : TypeInfo) (kind : Kind) (site : Site)
    (vs : List Value) (dst : List Nat) : Dispatched Applied → Prop
  | failed {index : List Nat} {ss : List Scalar} {e : DispatchError}
      (hindex : Shape.Within index dst) (hss : Entries vs index (ss.map .scalar))
      (he : Scalar.eval op .method ss = .error e.cause) :
      Entrywise op info flatInfo kind site vs dst (.error e)
  | stored {b : Buffer} (hkind : b.kind = kind) (hlen : b.length = Shape.size dst)
      (hb : ∀ index, Shape.Within index dst → ∃ ss s, Entries vs index (ss.map .scalar) ∧
        Scalar.eval op .method ss = .ok s ∧
        b.get? (Shape.offset dst index) = some ⟨kind, s.store kind⟩) :
      Entrywise op info flatInfo kind site vs dst (.ok (.value (.array
        ⟨site, info.key, .tensor ⟨site.child 3, flatInfo.key, .flat b⟩ dst⟩)))

theorem Entrywise.escaping {op : Op} {info flatInfo : TypeInfo} {kind : Kind} {site : Site}
    {vs : List Value} {dst : List Nat} {x : Dispatched Applied}
    (h : Entrywise op info flatInfo kind site vs dst x) (f : Frame) :
    Entrywise op info flatInfo kind site vs dst (escaping f x) := by
  cases h with
  | failed hindex hss he => exact .failed hindex hss he
  | stored hkind hlen hb => exact .stored hkind hlen hb

namespace Registry

section Flat

variable {r : Registry} {op : Op} {vs : List Value} {info flatInfo : TypeInfo} {kind : Kind}
  {shapes : List (List Nat)} {dst : List Nat} (ht : r.types.Regular)
  (hd : r.types.Registered (.tensor info (.flat flatInfo kind .dynamic)))
  (hop : flatInfo.ops op = .generic)
  (hvs : ∀ v ∈ vs, (Descriptor.tensor info (.flat flatInfo kind .dynamic)).IsInstance v)
  (hpos : 0 < vs.length) (hle : vs.length ≤ 3) (hs : Shapes vs shapes)
  (h : Shape.reconcile shapes = .ok dst) (hfits : Shape.Fits dst)

include ht hd hop hvs hpos hle hs h hfits

/-- The backing arrays are expanded to the common shape and have one length, or one element where
a tensor has no axes, so the call on them is one position by position. -/
theorem tensorCall_entrywise (self : Dispatcher) (held : List Value) (site : Site) :
    Entrywise op info flatInfo kind site vs dst
      (r.tensorCall (r.step (r.step self)) ⟨.normal, op, .method⟩ held site vs vs).result := by
  have hc : Call.Takes ⟨.normal, op, .method⟩ vs.length := Call.takes_of_operandCount? rfl hpos hle
  obtain ⟨arrays, harrays, hx⟩ :=
    exists_expandAll ht (tensors_of_instances hd hvs) hs h hfits (site.child 2)
  have hne : shapes ≠ [] := List.ne_nil_of_length_pos (hs.length_eq ▸ hpos)
  have hlen : vs.length = arrays.length := hx.length_eq
  have hresult := step_flat_result self [] (site.child 3) ht (ht.registered_component hd rfl) hop
    (isInstance_of_expanded ht hd hvs hx) (hlen ▸ hpos) (hlen ▸ hle) (lengths_of_expanded hx hs)
    (Shape.reconciles_expandedLengths h hne)
  have hmov : Call.movable? ⟨.normal, op, .method⟩ vs vs = none := Call.movable?_eq_none (by simp)
  unfold tensorCall
  rw [tensorParts_eq hd hvs hc, harrays]
  simp only [Except.map, Mode.nested, hmov]
  rcases hresult with ⟨i, ss, cause, hi, hus, he, hres⟩ | ⟨b, hres, hkind, hblen, hb⟩
  · obtain ⟨index, hindex, rfl⟩ := Shape.exists_offset_eq hi
    simp only [hres]
    exact .failed hindex ((elements_expanded_iff hx hindex).mp hus) he
  · simp only [hres]
    refine .stored hkind hblen fun index hindex => ?_
    obtain ⟨ss, s, hus, he, hget⟩ := hb _ (Shape.offset_lt_size hindex)
    exact ⟨ss, s, (elements_expanded_iff hx hindex).mp hus, he, hget⟩

theorem applyTensor_entrywise (held : List Value) (site : Site) :
    Entrywise op info flatInfo kind site vs dst
      (r.applyTensor ⟨.normal, op, .method⟩ held site vs).result := by
  have hc : Call.Takes ⟨.normal, op, .method⟩ vs.length := Call.takes_of_operandCount? rfl hpos hle
  obtain ⟨k, hk⟩ := r.exists_levels_eq vs
  rw [applyTensor_of_instances hd hvs hc, hk, Outcome.result_within]
  exact (tensorCall_entrywise ht hd hop hvs hpos hle hs h hfits (r.applyWithin k) held
    site).escaping _

end Flat

end Registry

/-- An operation on tensors over a flat type that takes it position by position. It is refused
exactly if the shapes do not agree. Otherwise, if the elements of the common shape can be counted,
it can only fail as the evaluation of scalars does, and its result has that shape; the element at
every multi-index is the value of the operation on what the operands contribute there, stored as an
element of the kind of the flat type. -/
theorem applyTensor_elementwise {r : Registry} (hr : r.Built) (ha : r.types.StockAccess)
    {info flatInfo : TypeInfo} {kind : Kind} {op : Op}
    (hd : r.types.Registered (.tensor info (.flat flatInfo kind .dynamic)))
    (hop : flatInfo.ops op = .generic) {vs : List Value}
    (hvs : ∀ v ∈ vs, (Descriptor.tensor info (.flat flatInfo kind .dynamic)).IsInstance v)
    (hlen : vs.length = op.arity) {shapes : List (List Nat)} (hs : Shapes vs shapes)
    (held : List Value) (site : Site) :
    ((∃ e, (r.applyTensor ⟨.normal, op, .method⟩ held site vs).result = .error e ∧
        e.cause.OfShapes) ↔ ∃ cause, Shape.reconcile shapes = .error cause) ∧
      (∀ cause, Shape.reconcile shapes = .error cause →
        (r.applyTensor ⟨.normal, op, .method⟩ held site vs).result =
          .error ⟨cause, [.method info.name op]⟩) ∧
      ∀ dst, Shape.reconcile shapes = .ok dst → Shape.Fits dst →
        (∀ e, (r.applyTensor ⟨.normal, op, .method⟩ held site vs).result = .error e →
          (∃ index ss, Shape.Within index dst ∧ Entries vs index (ss.map .scalar) ∧
            Scalar.eval op .method ss = .error e.cause) ∧
          (∀ sizes, e.cause ≠ .sizes sizes) ∧ ∀ i, e.cause ≠ .itemAccess i) ∧
        ∀ o, (r.applyTensor ⟨.normal, op, .method⟩ held site vs).result = .ok o →
          ∃ a flat, o = .value (.array a) ∧ a.type = info.key ∧ a.payload = .tensor flat dst ∧
            (Descriptor.tensor info (.flat flatInfo kind .dynamic)).IsInstance (.array a) ∧
            flat.length = Shape.size dst ∧
            ∀ index, Shape.Within index dst → ∃ ss s, Entries vs index (ss.map .scalar) ∧
              Scalar.eval op .method ss = .ok s ∧
              flat.payload.get? (Shape.offset dst index) =
                some (.scalar ⟨kind, s.store kind⟩) := by
  have ht : r.types.Regular := ⟨hr.sound, ha⟩
  have hpos : 0 < vs.length := hlen ▸ op.arity_pos
  have hle : vs.length ≤ 3 := hlen ▸ op.arity_le_three
  have hc : Call.Takes ⟨.normal, op, .method⟩ vs.length := Call.takes_of_operandCount? rfl hpos hle
  have htensors := Registry.tensors_of_instances hd hvs
  have hfailed : ∀ cause, r.types.expandAll (site.child 2) vs = .error cause →
      (r.applyTensor ⟨.normal, op, .method⟩ held site vs).result =
        .error ⟨cause, [.method info.name op]⟩ := by
    intro cause hcause
    rw [Registry.applyTensor_of_expandAll_eq_error hd hvs hc hcause]
    rfl
  have hrefused : ∀ cause, Shape.reconcile shapes = .error cause →
      (r.applyTensor ⟨.normal, op, .method⟩ held site vs).result =
        .error ⟨cause, [.method info.name op]⟩ := fun cause hcause =>
    hfailed cause (expandAll_of_reconcile_eq_error ht htensors hs hcause _)
  have haccepted : ∀ dst, Shape.reconcile shapes = .ok dst → Shape.Fits dst →
      Entrywise op info flatInfo kind site vs dst
        (r.applyTensor ⟨.normal, op, .method⟩ held site vs).result := fun dst hdst hfits =>
    Registry.applyTensor_entrywise ht hd hop hvs hpos hle hs hdst hfits held site
  refine ⟨⟨?_, ?_⟩, hrefused, fun dst hdst hfits => ⟨fun e he => ?_, fun o ho => ?_⟩⟩
  · rintro ⟨e, he, hcause⟩
    cases hrec : Shape.reconcile shapes with
    | error cause => exact ⟨cause, rfl⟩
    | ok dst =>
      by_cases hfits : Shape.Fits dst
      · have hentries := haccepted dst hrec hfits
        rw [he] at hentries
        cases hentries with
        | failed _ _ heval =>
          exact absurd hcause (Cause.not_ofShapes_of_ofScalars (Scalar.ofScalars_of_eval heval))
      · rw [hfailed _ (expandAll_of_not_fits ht htensors hs hrec hfits _)] at he
        cases he
        exact hcause.elim
  · rintro ⟨cause, hcause⟩
    refine ⟨_, hrefused cause hcause, ?_⟩
    rcases Shape.cause_of_reconcile_eq_error hcause with rfl | rfl <;> trivial
  · have hentries := haccepted dst hdst hfits
    rw [he] at hentries
    cases hentries with
    | failed hindex hss heval =>
      have hof : e.cause.OfScalars := Scalar.ofScalars_of_eval heval
      refine ⟨⟨_, _, hindex, hss, heval⟩, fun sizes hsizes => ?_, fun i hitem => ?_⟩
      · rw [hsizes] at hof
        exact hof
      · rw [hitem] at hof
        exact hof
  · have hentries := haccepted dst hdst hfits
    rw [ho] at hentries
    cases hentries with
    | stored hkind hblen hb =>
      refine ⟨_, _, rfl, rfl, rfl, ⟨_, rfl, rfl, ⟨rfl, hkind, trivial⟩, hblen, hfits⟩, hblen,
        fun index hindex => ?_⟩
      obtain ⟨ss, s, hus, heval, hget⟩ := hb index hindex
      exact ⟨ss, s, hus, heval, congrArg (Option.map Value.scalar) hget⟩

def Stock.integerTensorsInfo : TypeInfo :=
  ⟨"TensorXi", tensorXi, some tensorXb, fun _ => .generic, .none, .stock⟩

def Stock.integerTensor (site : Site) (xs : List (IntType.Word .int32)) (shape : List Nat) :
    Value :=
  .array ⟨site, tensorXi, .tensor ⟨site.child 0, int32X, .flat ⟨.integer .int32, xs⟩⟩ shape⟩

theorem Stock.isInstance_integerTensor (site : Site) {xs : List (IntType.Word .int32)}
    {shape : List Nat} (h : Shape.count shape = .ok xs.length) :
    (Descriptor.tensor integerTensorsInfo
      (.flat integersInfo (.integer .int32) .dynamic)).IsInstance
        (integerTensor site xs shape) :=
  Descriptor.isInstance_tensor ⟨_, rfl, rfl, rfl, trivial⟩ h

/-- A column, a row and a tensor without axes. -/
theorem applyTensor_elementwise_column_row :
    let vs := [Stock.integerTensor ⟨[0]⟩ [2, 3] [2, 1],
      Stock.integerTensor ⟨[1]⟩ [10, 20, 30] [1, 3], Stock.integerTensor ⟨[2]⟩ [1] []]
    Shapes vs [[2, 1], [1, 3], []] ∧ Shape.reconcile [[2, 1], [1, 3], []] = .ok [2, 3] ∧
      Shape.Fits [2, 3] ∧ ∃ a flat,
        (Stock.registry.applyTensor ⟨.normal, .fma, .method⟩ [] ⟨[3]⟩ vs).result =
          .ok (.value (.array a)) ∧
        a.type = Stock.tensorXi ∧ a.payload = .tensor flat [2, 3] ∧ flat.length = 6 ∧
        ∀ index, Shape.Within index [2, 3] → ∃ ss s, Entries vs index (ss.map .scalar) ∧
          Scalar.eval .fma .method ss = .ok s ∧
          flat.payload.get? (Shape.offset [2, 3] index) =
            some (.scalar ⟨.integer .int32, s.store (.integer .int32)⟩) := by
  intro vs
  have hvs : ∀ v ∈ vs, (Descriptor.tensor Stock.integerTensorsInfo
      (.flat Stock.integersInfo (.integer .int32) .dynamic)).IsInstance v := by
    simp only [vs, List.forall_mem_cons]
    exact ⟨Stock.isInstance_integerTensor _ rfl, Stock.isInstance_integerTensor _ rfl,
      Stock.isInstance_integerTensor _ rfl, List.forall_mem_nil _⟩
  have hs : Shapes vs [[2, 1], [1, 3], []] := .cons rfl (.cons rfl (.cons rfl .nil))
  have hrec : Shape.reconcile [[2, 1], [1, 3], []] = .ok [2, 3] := rfl
  have hfits : Shape.Fits [2, 3] := by decide
  have hd : Stock.registry.types.Registered (.tensor Stock.integerTensorsInfo
      (.flat Stock.integersInfo (.integer .int32) .dynamic)) := rfl
  have hop : Stock.integersInfo.ops .fma = .generic := rfl
  obtain ⟨_, _, haccepted⟩ := applyTensor_elementwise Stock.built_registry
    Stock.stockAccess_registry hd hop hvs rfl hs [] ⟨[3]⟩
  have hok :
      (Stock.registry.applyTensor ⟨.normal, .fma, .method⟩ [] ⟨[3]⟩ vs).result.toOption.isSome =
        true := by decide +kernel
  cases hres : (Stock.registry.applyTensor ⟨.normal, .fma, .method⟩ [] ⟨[3]⟩ vs).result with
  | error e =>
    rw [hres] at hok
    cases hok
  | ok o =>
    obtain ⟨a, flat, rfl, htype, hpayload, _, hlen, hentries⟩ := (haccepted _ hrec hfits).2 o hres
    exact ⟨hs, hrec, hfits, a, flat, rfl, htype, hpayload, hlen, hentries⟩

/-- Three tensors along one axis each, whose common shape has more elements than a size counts. -/
theorem applyTensor_elementwise_overflow :
    let vs := [Stock.integerTensor ⟨[0]⟩ (List.replicate 2614462 0) [2614462, 1, 1],
      Stock.integerTensor ⟨[1]⟩ (List.replicate 2636159 0) [1, 2636159, 1],
      Stock.integerTensor ⟨[2]⟩ (List.replicate 2676491 0) [1, 1, 2676491]]
    let shapes := [[2614462, 1, 1], [1, 2636159, 1], [1, 1, 2676491]]
    (∀ v ∈ vs, (Descriptor.tensor Stock.integerTensorsInfo
        (.flat Stock.integersInfo (.integer .int32) .dynamic)).IsInstance v) ∧
      vs.length = Op.fma.arity ∧ Shapes vs shapes ∧
      Shape.reconcile shapes = .ok [2614462, 2636159, 2676491] ∧
      ∃ e, (Stock.registry.applyTensor ⟨.normal, .fma, .method⟩ [] ⟨[3]⟩ vs).result = .error e ∧
        ∀ ss, Scalar.eval .fma .method ss ≠ .error e.cause := by
  intro vs shapes
  have hcount : ∀ (site : Site) (n : Nat) (shape : List Nat), Shape.count shape = .ok n →
      (Descriptor.tensor Stock.integerTensorsInfo
        (.flat Stock.integersInfo (.integer .int32) .dynamic)).IsInstance
        (Stock.integerTensor site (List.replicate n 0) shape) := fun site n shape h =>
    Stock.isInstance_integerTensor site (by rw [List.length_replicate]; exact h)
  have hvs : ∀ v ∈ vs, (Descriptor.tensor Stock.integerTensorsInfo
      (.flat Stock.integersInfo (.integer .int32) .dynamic)).IsInstance v := by
    simp only [vs, List.forall_mem_cons]
    exact ⟨hcount _ _ _ rfl, hcount _ _ _ rfl, hcount _ _ _ rfl, List.forall_mem_nil _⟩
  have hs : Shapes vs shapes := .cons rfl (.cons rfl (.cons rfl .nil))
  have hrec : Shape.reconcile shapes = .ok [2614462, 2636159, 2676491] := rfl
  have hfits : ¬Shape.Fits [2614462, 2636159, 2676491] := by decide
  have hd : Stock.registry.types.Registered (.tensor Stock.integerTensorsInfo
      (.flat Stock.integersInfo (.integer .int32) .dynamic)) := rfl
  have ht : Stock.registry.types.Regular :=
    ⟨Stock.built_registry.sound, Stock.stockAccess_registry⟩
  have hc : Call.Takes ⟨.normal, .fma, .method⟩ vs.length :=
    Call.takes_of_operandCount? rfl (by decide) (by decide)
  have hx := expandAll_of_not_fits ht (Registry.tensors_of_instances hd hvs) hs hrec hfits
    (Site.child ⟨[3]⟩ 2)
  refine ⟨hvs, rfl, hs, hrec, ⟨.overflow, [.method "TensorXi" .fma]⟩, ?_, fun ss hss => ?_⟩
  · rw [Registry.applyTensor_of_expandAll_eq_error hd hvs hc hx]
    rfl
  · have hof : Cause.overflow.OfScalars := Scalar.ofScalars_of_eval hss
    exact hof

end ArrayDispatch
