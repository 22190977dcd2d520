import ArrayDispatch.Proofs.Dispatch.Native
import ArrayDispatch.Proofs.Dispatch.Representative

/-!
Operands that a call cannot tell apart. A relation of lists of operands that their lengths, their
shapes and their scalars respect, and that passes from operands to what they contribute to one
position, relates operands on which the whole dispatch leads to the same.
-/

namespace ArrayDispatch

/-- The call cannot tell apart operands that `M` relates, given the type that they fit: their
lengths and their shapes agree alike, their scalars evaluate alike, and `M` relates the elements
that they contribute to one position, and the backing arrays that are expanded to one shape. -/
structure Call.Bisimulation (c : Call) (M : Descriptor → List Value → List Value → Prop) :
    Prop where
  lengths : ∀ {d us us' lens lens'}, d.isTensor = false → M d us us' → Lengths us lens →
    Lengths us' lens' →
    Dispatched.Corresponds (reconcileLengths lens).lift (reconcileLengths lens').lift
  scalars : ∀ {info kind extent us us' i ss ss'}, M (.flat info kind extent) us us' →
    Elements us i (ss.map .scalar) → Elements us' i (ss'.map .scalar) →
    Scalar.eval c.op c.slot ss = Scalar.eval c.op c.slot ss'
  elements : ∀ {info element extent us us' i ws ws'}, element.isTensor = false →
    M (.nested info element extent) us us' → Elements us i ws → Elements us' i ws' →
    M element ws ws'
  shapes : ∀ {info backing us us' shapes shapes'}, M (.tensor info backing) us us' →
    Shapes us shapes → Shapes us' shapes' →
    Dispatched.Corresponds (Shape.reconcile shapes).lift (Shape.reconcile shapes').lift
  expanded : ∀ {info backing us us' dst arrays arrays'}, backing.isTensor = false →
    M (.tensor info backing) us us' → (∀ u ∈ us, u.shape? = some [] → 0 < Shape.size dst) →
    List.Forall₂ (Value.Expanded dst) us arrays → List.Forall₂ (Value.Expanded dst) us' arrays' →
    M backing arrays arrays'

/-- Down to the scalars, the kernels that the type has for an operation evaluate scalars. -/
def Descriptor.EvaluatesAt (op : Op) : Descriptor → Prop
  | flat info kind _ => ∀ kernel, info.ops op = .native kernel →
      kernel.Evaluates op kind (if op = .richcmp then .bool else kind)
  | nested _ element _ => element.EvaluatesAt op
  | tensor _ backing => backing.EvaluatesAt op

/-- Calls on operands that are related and fit the type `d` lead to the same. -/
def Dispatcher.AlikeOn (t : TypeTable) (c : Call) (M : Descriptor → List Value → List Value → Prop)
    (self self' : Dispatcher) (d : Descriptor) : Prop :=
  ∀ held held' site us us', us.length = c.op.arity → us'.length = c.op.arity →
    Fitting t c.mode d us → Fitting t c.mode d us' → M d us us' →
    Dispatched.Corresponds (self c held site us).result (self' c held' site us').result

theorem Attempt.corresponds_cases {α : Type} {x y : Attempt α}
    (h : Dispatched.Corresponds x.lift y.lift) :
    (∃ a, x = .ok a ∧ y = .ok a) ∨
      ∃ cause cause', x = .error cause ∧ y = .error cause' ∧ cause.ctorIdx = cause'.ctorIdx := by
  cases x with
  | ok a =>
    cases y with
    | ok b =>
      cases h
      exact .inl ⟨a, rfl, rfl⟩
    | error cause => cases h
  | error cause =>
    cases y with
    | ok b => cases h
    | error cause' =>
      cases h with
      | error h => exact .inr ⟨cause, cause', rfl, rfl, h.kind_eq⟩

theorem exists_pair_of_forall₂ {α β : Type} {R : α → β → Prop} {a b : α} {ys : List β}
    (h : List.Forall₂ R [a, b] ys) : ∃ x y, ys = [x, y] ∧ R a x ∧ R b y := by
  cases h with
  | cons hx h =>
    cases h with
    | cons hy h =>
      cases h
      exact ⟨_, _, rfl, hx, hy⟩

theorem exists_triple_of_forall₂ {α β : Type} {R : α → β → Prop} {a b c : α} {ys : List β}
    (h : List.Forall₂ R [a, b, c] ys) : ∃ x y z, ys = [x, y, z] ∧ R a x ∧ R b y ∧ R c z := by
  cases h with
  | cons hx h =>
    cases h with
    | cons hy h =>
      cases h with
      | cons hz h =>
        cases h
        exact ⟨_, _, _, rfl, hx, hy, hz⟩

theorem Fitting.exists_elements {t : TypeTable} {mode : Mode} {d : Descriptor} {us : List Value}
    (hd : t.Registered d) (hp : d.isTensor = false) (h : Fitting t mode d us) {lens : List Nat}
    {n i : Nat} (hl : Lengths us lens) (hr : Reconciles lens n) (hi : i < n) :
    ∃ ws, Elements us i ws := by
  refine ArrayDispatch.exists_elements hl hr hi fun a ha j hj => ?_
  obtain ⟨m, _, hparallel, him⟩ := h.exists_isInstance hd ha
  refine Payload.exists_get? (fun htensor => ?_) hj
  rw [him.form_eq, ← Descriptor.isTensor_iff, hparallel.isTensor_eq, hp] at htensor
  cases htensor

namespace Registry

variable {r : Registry} {self self' : Dispatcher} {c : Call} {us us' : List Value}
  {d m : Descriptor} {M : Descriptor → List Value → List Value → Prop}

theorem Arranged.promoted {vs : List Value} (h : r.Arranged c d m us vs) : r.Promoted c d us :=
  ⟨h.registered, h.representative_lt, fun u hu => (h.fitting.values u hu).type?⟩

theorem lengths_ne_nil {lens : List Nat} (hlt : c.mode.representative < us.length)
    (hl : Lengths us lens) : lens ≠ [] := by
  rintro rfl
  cases hl
  exact absurd hlt (Nat.not_lt_zero _)

/-! ## Calls on one type -/

section Calls

variable (ht : r.types.Regular) (hM : c.Bisimulation M) (hmode : c.mode ≠ .inPlace)
  (h : r.Prepared c d m us us) (h' : r.Prepared c d m us' us')

include ht hM hmode h h'

theorem loopCall_alike (hp : d.isTensor = false) (hrel : M d us us')
    (hself : ∀ i ws ws' s, Elements us i ws → Elements us' i ws' →
      Dispatched.Corresponds (self c ws s ws).result (self' c ws' s ws').result)
    (held held' operands operands' : List Value) (site : Site) :
    Dispatched.Corresponds (r.loopCall self c held site d m us operands).result
      (r.loopCall self' c held' site d m us' operands').result := by
  have haccess := ht.access_of_registered h.registered_target
  obtain ⟨lens, hl⟩ := exists_lengths h.arrays
  obtain ⟨lens', hl'⟩ := exists_lengths h'.arrays
  rw [loopCall_of_arrays ht h.arrays hl (counterpart_eq h.proper) (Call.movable?_eq_none hmode),
    loopCall_of_arrays ht h'.arrays hl' (counterpart_eq h.proper) (Call.movable?_eq_none hmode)]
  rcases Attempt.corresponds_cases (hM.lengths hp hrel hl hl') with
    ⟨n, hn, hn'⟩ | ⟨cause, cause', hc, hc', hkind⟩
  · rw [hn, hn']
    have hr := (reconcileLengths_eq_ok_iff_reconciles
      (lengths_ne_nil h.representative_lt hl)).mp hn
    have hr' := (reconcileLengths_eq_ok_iff_reconciles
      (lengths_ne_nil h'.representative_lt hl')).mp hn'
    refine Loop.intoNew_corresponds_of_values (reads_of_arrays ht h.arrays hl haccess _ _ n _)
      (reads_of_arrays ht h'.arrays hl' haccess _ _ n _) rfl (fun i hi => ?_) rfl rfl _ _ _ _
    obtain ⟨ws, hws⟩ := h.fitting.exists_elements h.registered hp hl hr hi
    obtain ⟨ws', hws'⟩ := h'.fitting.exists_elements h.registered hp hl' hr' hi
    rw [Loop.valueAt_of_elements hws, Loop.valueAt_of_elements hws', Call.inner_eq hmode]
    exact (Dispatcher.onElements_corresponds (hself i ws ws' _ hws hws')).escaping _
  · rw [hc, hc']
    exact .error ⟨hkind, rfl⟩

omit ht in
theorem kernel_alike {info : TypeInfo} {kind : Kind} {extent : Extent}
    (hflat : d = .flat info kind extent) (hrel : M d us us') (hselect : c.op ≠ .select)
    (hlen : us.length = c.op.arity) (hlen' : us'.length = c.op.arity) {kernel : Kernel}
    (hkernel : kernel.Evaluates c.op kind (if c.op = .richcmp then .bool else kind))
    (held held' operands operands' : List Value) (site : Site) :
    Dispatched.Corresponds
      (match payloads us >>= kernel.run c.op c.slot with
        | .ok p => finish held operands (c.movable? us operands) ⟨site, m.key, p⟩
        | .error cause => .failedBy operands cause).result
      (match payloads us' >>= kernel.run c.op c.slot with
        | .ok p => finish held' operands' (c.movable? us' operands') ⟨site, m.key, p⟩
        | .error cause => .failedBy operands' cause).result := by
  subst hflat
  obtain ⟨lens, hl⟩ := exists_lengths h.arrays
  obtain ⟨lens', hl'⟩ := exists_lengths h'.arrays
  have hlengths := Attempt.corresponds_cases (hM.lengths rfl hrel hl hl')
  have hresult := kernelResult h hselect hlen hkernel hl
  have hresult' := kernelResult h' hselect hlen' hkernel hl'
  rw [Call.movable?_eq_none hmode, Call.movable?_eq_none hmode]
  generalize payloads us >>= kernel.run c.op c.slot = x at hresult
  generalize payloads us' >>= kernel.run c.op c.slot = y at hresult'
  cases hresult with
  | sizes sizes hrec =>
    cases hresult' with
    | sizes sizes' hrec' => exact .error ⟨rfl, rfl⟩
    | values b' hkind' hrec' hvalue' => simp [hrec, hrec'] at hlengths
  | values b hkind hrec hvalue =>
    cases hresult' with
    | sizes sizes' hrec' => simp [hrec, hrec'] at hlengths
    | values b' hkind' hrec' hvalue' =>
      have hlen : b.length = b'.length := by simpa [hrec, hrec', eq_comm] using hlengths
      have hkinds : b.kind = b'.kind := hkind.trans hkind'.symm
      have hsame : Payload.flat b = .flat b' := by
        refine Payload.eq_of_get?_eq (congrArg Form.flat hkinds) nofun hlen fun i hi => ?_
        obtain ⟨ss, s, hss, hs, hget⟩ := hvalue i hi
        obtain ⟨ss', s', hss', hs', hget'⟩ := hvalue' i (Nat.lt_of_lt_of_eq hi hlen)
        rw [hM.scalars hrel hss hss', hs', Except.ok.injEq] at hs
        rw [Payload.get?, Payload.get?, hget, hget', hkinds, hs]
      rw [hsame]
      exact .ok _

theorem arrayCall_alike (hl : r.types.Lawful) (hp : d.isTensor = false) (hrel : M d us us')
    (hlen : us.length = c.op.arity) (hlen' : us'.length = c.op.arity) (heval : d.EvaluatesAt c.op)
    (hself : ∀ i ws ws' s, Elements us i ws → Elements us' i ws' →
      Dispatched.Corresponds (self c ws s ws).result (self' c ws' s ws').result)
    (held held' operands operands' : List Value) (site : Site) :
    Dispatched.Corresponds (r.arrayCall self c held site d us operands).result
      (r.arrayCall self' c held' site d us' operands').result := by
  have hfit := hl.kernelsFit _ (TypeTable.Regular.mem_of_registered h.registered)
  unfold arrayCall
  simp only [h.descriptor_eq]
  cases c.isUnordered d with
  | true => exact Dispatched.corresponds_self _
  | false =>
    simp only [Bool.false_eq_true, if_false]
    cases hop : d.op c.op with
    | unsupported => exact Dispatched.corresponds_self _
    | generic => exact loopCall_alike ht hM hmode h h' hp hrel hself held held' _ _ site
    | native kernel =>
      cases d with
      | flat info kind extent =>
        exact kernel_alike hM hmode h h' rfl hrel (hfit _ _ hop).1 hlen hlen' (heval kernel hop)
          held held' _ _ site
      | nested info element extent => exact absurd hop (hfit c.op kernel)
      | tensor info backing => cases hp

theorem tensorCall_alike {info : TypeInfo} {backing : Descriptor} (hd : d = .tensor info backing)
    (hrel : M d us us') (hlen : us.length = c.op.arity) (hlen' : us'.length = c.op.arity)
    (hself : Dispatcher.AlikeOn r.types c M self self' backing)
    (held held' operands operands' : List Value) (site : Site) :
    Dispatched.Corresponds (r.tensorCall self c held site us operands).result
      (r.tensorCall self' c held' site us' operands').result := by
  subst hd
  have hd := h.registered
  have htensors := h.fitting.tensors hd
  have htensors' := h'.fitting.tensors hd
  obtain ⟨shapes, hs⟩ := exists_shapes htensors
  obtain ⟨shapes', hs'⟩ := exists_shapes htensors'
  unfold tensorCall
  rw [h.promoted.tensorParts_eq rfl, h'.promoted.tensorParts_eq rfl, Call.movable?_eq_none hmode,
    Call.movable?_eq_none hmode]
  rcases Attempt.corresponds_cases (hM.shapes hrel hs hs') with
    ⟨dst, hdst, hdst'⟩ | ⟨cause, cause', hc, hc', hkind⟩
  · by_cases hfits : Shape.Fits dst
    swap
    · rw [expandAll_of_not_fits ht htensors hs hdst hfits,
        expandAll_of_not_fits ht htensors' hs' hdst' hfits]
      exact .error ⟨rfl, rfl⟩
    obtain ⟨arrays, harrays, hx⟩ := exists_expandAll ht htensors hs hdst hfits (site.child 2)
    obtain ⟨arrays', harrays', hx'⟩ :=
      exists_expandAll ht htensors' hs' hdst' hfits (site.child 2)
    have hinner : (⟨c.mode.nested, c.op, c.slot⟩ : Call) = c := Call.inner_eq hmode
    have hpos : ∀ u ∈ us, u.shape? = some [] → 0 < Shape.size dst := fun u hu hnil => by
      obtain ⟨s, hmem, hshape⟩ := exists_mem_of_forall₂ hs.flip hu
      cases hnil.symm.trans hshape
      exact Shape.size_pos_of_nil_mem hdst hmem
    have hresult := hself [] [] (site.child 3) arrays arrays' (hx.length_eq.symm.trans hlen)
      (hx'.length_eq.symm.trans hlen') (h.fitting.expanded ht hd hx) (h'.fitting.expanded ht hd hx')
      (hM.expanded (ht.component_isTensor hd rfl) hrel hpos hx hx')
    rw [harrays, harrays']
    simp only [Except.map, hinner]
    generalize (self c [] (site.child 3) arrays).result = x at hresult
    generalize (self' c [] (site.child 3) arrays').result = y at hresult
    cases hresult with
    | error he => exact .error he
    | ok o =>
      rcases o with (s | a) | _
      · exact .error ⟨rfl, rfl⟩
      · exact .ok _
      · exact .ok _
  · rw [expandAll_of_reconcile_eq_error ht htensors hs hc,
      expandAll_of_reconcile_eq_error ht htensors' hs' hc']
    exact .error ⟨hkind, rfl⟩

theorem resolve_alike (hl : r.types.Lawful) (hrel : M d us us') (hlen : us.length = c.op.arity)
    (hlen' : us'.length = c.op.arity) (heval : d.EvaluatesAt c.op)
    (hscalars : self.EvaluatesScalars) (hscalars' : self'.EvaluatesScalars)
    (hself : ∀ e, d.component? = some e → Dispatcher.AlikeOn r.types c M self self' e)
    (held held' operands operands' : List Value) (site : Site) :
    Dispatched.Corresponds (r.resolve self c held site us operands).result
      (r.resolve self' c held' site us' operands').result := by
  rw [h.promoted.resolve_eq, h'.promoted.resolve_eq]
  have hd := h.registered
  cases d with
  | flat info kind extent =>
    refine arrayCall_alike ht hM hmode h h' hl rfl hrel hlen hlen' heval
      (fun i ws ws' s hws hws' => ?_) held held' _ _ site
    obtain ⟨ss, rfl, hss⟩ := h.fitting.exists_scalars hd hws
    obtain ⟨ss', rfl, hss'⟩ := h'.fitting.exists_scalars hd hws'
    rw [hscalars _ _ _ _ (h.proper.takes (hss.trans hlen)),
      hscalars' _ _ _ _ (h.proper.takes (hss'.trans hlen')), hM.scalars hrel hws hws']
    exact Dispatched.corresponds_self _
  | nested info element extent =>
    refine arrayCall_alike ht hM hmode h h' hl rfl hrel hlen hlen' heval
      (fun i ws ws' s hws hws' => ?_) held held' _ _ site
    exact hself element rfl ws ws' s ws ws' (hws.length_eq.symm.trans hlen)
      (hws'.length_eq.symm.trans hlen') (h.fitting.elements ht hws) (h'.fitting.elements ht hws')
      (hM.elements (ht.component_isTensor hd rfl) hrel hws hws')
  | tensor info backing =>
    exact tensorCall_alike ht hM hmode h h' rfl hrel hlen hlen' (hself backing rfl) held held' _ _
      site

end Calls

/-! ## Nested calls -/

section Nested

variable (ht : r.types.Regular) (hl : r.types.Lawful) (hu : r.unifier = .promote)
  (hM : c.Bisimulation M) (hc : c.Proper) (hmode : c.mode ≠ .inPlace)

include ht hl hu hM hc hmode

theorem alikeOn_step (hd : r.types.Registered d) (heval : d.EvaluatesAt c.op)
    (hscalars : self.EvaluatesScalars) (hscalars' : self'.EvaluatesScalars)
    (hself : ∀ e, d.component? = some e → Dispatcher.AlikeOn r.types c M self self' e) :
    Dispatcher.AlikeOn r.types c M (r.step self) (r.step self') d := by
  intro held held' site us us' hlen hlen' hfit hfit' hrel
  have htakes := hc.takes hlen
  have htakes' := hc.takes hlen'
  obtain ⟨m, hm, htarget⟩ := Call.exists_targets hl c hd
  have h := prepared_of_fitting hc hmode hd hm htarget hfit htakes.representative_lt
  have h' := prepared_of_fitting hc hmode hd hm htarget hfit' htakes'.representative_lt
  rw [step_of_fitting hu hd hfit htakes, step_of_fitting hu hd hfit' htakes',
    h.promoted.frameOf_eq, h'.promoted.frameOf_eq]
  exact Outcome.corresponds_within (resolve_alike ht hM hmode h h' hl hrel hlen hlen' heval
    hscalars hscalars' hself held held' us us' site) _

/-- Calls on operands of a plain type lead to the same, down to the scalars. -/
theorem alikeOn_applyWithin (hd : r.types.Registered d) (hp : d.isTensor = false)
    (heval : d.EvaluatesAt c.op) {k k' : Nat} (hk : d.ndim < k) (hk' : d.ndim < k') :
    Dispatcher.AlikeOn r.types c M (r.applyWithin k) (r.applyWithin k') d := by
  induction d generalizing k k' with
  | flat info kind extent =>
    obtain ⟨k, rfl⟩ : ∃ j, k = j + 2 := ⟨k - 2, by simp only [Descriptor.ndim] at hk; omega⟩
    obtain ⟨k', rfl⟩ : ∃ j, k' = j + 2 := ⟨k' - 2, by simp only [Descriptor.ndim] at hk'; omega⟩
    exact alikeOn_step ht hl hu hM hc hmode hd heval (evaluatesScalars_step r _)
      (evaluatesScalars_step r _) fun e he => by cases he
  | nested info element extent ih =>
    simp only [Descriptor.ndim] at hk hk'
    obtain ⟨k, rfl⟩ : ∃ j, k = j + 2 := ⟨k - 2, by omega⟩
    obtain ⟨k', rfl⟩ : ∃ j, k' = j + 2 := ⟨k' - 2, by omega⟩
    refine alikeOn_step ht hl hu hM hc hmode hd heval (evaluatesScalars_step r _)
      (evaluatesScalars_step r _) fun e he => ?_
    cases he
    exact ih (ht.registered_component hd rfl) (ht.component_isTensor hd rfl) heval (by omega)
      (by omega)
  | tensor info backing => cases hp

/-- A call leads to the same on operands that are unified to related ones. -/
theorem apply_corresponds_of_unified {vs vs' : List Value} {site : Site}
    (hlen : vs.length = c.op.arity) (hlen' : vs'.length = c.op.arity) {a a' : Object}
    (ha : .array a ∈ vs) (ha' : .array a' ∈ vs') (hus : r.unified c site vs = .ok us)
    (hus' : r.unified c site vs' = .ok us') (hlenus : us.length = vs.length)
    (hlenus' : us'.length = vs'.length) (hd : r.types.Registered d) (heval : d.EvaluatesAt c.op)
    (hfit : Fitting r.types c.mode d us) (hfit' : Fitting r.types c.mode d us') (hrel : M d us us')
    (held held' : List Value) :
    Dispatched.Corresponds (r.apply c held site vs).result (r.apply c held' site vs').result := by
  have htakes := hc.takes hlen
  have htakes' := hc.takes hlen'
  obtain ⟨k, hk⟩ := r.exists_levels_eq vs
  obtain ⟨k', hk'⟩ := r.exists_levels_eq vs'
  have hdepth := succ_ndim_lt_levels hd vs
  have hdepth' := succ_ndim_lt_levels hd vs'
  obtain ⟨m, hm, htarget⟩ := Call.exists_targets hl c hd
  have h := prepared_of_fitting hc hmode hd hm htarget hfit
    (hlenus ▸ htakes.representative_lt)
  have h' := prepared_of_fitting hc hmode hd hm htarget hfit'
    (hlenus' ▸ htakes'.representative_lt)
  unfold apply
  rw [hk] at hdepth ⊢
  rw [hk'] at hdepth' ⊢
  change Dispatched.Corresponds (r.step (r.applyWithin (k + 1)) c held site vs).result
    (r.step (r.applyWithin (k' + 1)) c held' site vs').result
  rw [step_of_unified htakes ha hus, step_of_unified htakes' ha' hus', h.promoted.frameOf_eq,
    h'.promoted.frameOf_eq]
  refine Outcome.corresponds_within (resolve_alike ht hM hmode h h' hl hrel (hlenus.trans hlen)
    (hlenus'.trans hlen') heval (evaluatesScalars_step r _) (evaluatesScalars_step r _)
    (fun e he => ?_) held held' vs vs' site) _
  have hle := Descriptor.ndim_le_of_component? he
  have hlt : e.ndim < k + 1 := by omega
  have hlt' : e.ndim < k' + 1 := by omega
  have hevale : e.EvaluatesAt c.op := by
    cases d <;> cases he <;> exact heval
  exact alikeOn_applyWithin ht hl hu hM hc hmode (ht.registered_component hd he)
    (ht.component_isTensor hd he) hevale hlt hlt'

end Nested

end Registry

end ArrayDispatch
