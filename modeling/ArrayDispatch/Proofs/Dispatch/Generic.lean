import ArrayDispatch.Proofs.Dispatch.Call

/-!
Calls that a type takes position by position, on operands of that type. What they return has been
filled with the results of calls on the elements; on flat types those are evaluations of scalars.
-/

namespace ArrayDispatch

theorem Dispatcher.onElements_eq_ok_iff {self : Dispatcher} {t : TypeTable} {site : Site}
    {c : Call} {args : List Value} {v : Value} :
    self.onElements t site c args = .ok v ↔ (self c args site args).result = .ok (.value v) := by
  unfold onElements
  split <;> simp_all [pure, Except.pure, fail, throw, throwThe, MonadExceptOf.throw]

theorem exists_scalars_of_hasItem {vs : List Value} {info : TypeInfo} {leaf : Kind}
    {extent : Extent} (h : ∀ v ∈ vs, (Descriptor.flat info leaf extent).HasItem v) :
    ∃ ss : List Scalar, vs = ss.map .scalar := by
  induction vs with
  | nil => exact ⟨[], rfl⟩
  | cons v vs ih =>
    obtain ⟨ss, rfl⟩ := ih fun w hw => h w (List.mem_cons_of_mem _ hw)
    obtain ⟨s, rfl, _⟩ := h v (by simp)
    exact ⟨s :: ss, rfl⟩

namespace Registry

variable {r : Registry} {self : Dispatcher} {op : Op} {held vs : List Value} {site : Site}
  {d : Descriptor} {lens : List Nat}

/-! ## Calls on one type -/

/-- The loop of a call on operands of the type `d`, whose nested calls go to `self`. -/
def elementLoop (r : Registry) (self : Dispatcher) (op : Op) (d : Descriptor) (vs : List Value)
    (lens : List Nat) (site : Site) : Loop where
  types := r.types
  target := d
  counterpart := fun site args => self.onElements r.types site ⟨.normal, op, .method⟩ args
  sources := (vs.map some).zip lens
  site := site.child 4

theorem step_generic_result (ht : r.types.Regular) (hd : r.types.Registered d)
    (hp : d.isTensor = false) (hop : d.op op = .generic) (hvs : ∀ v ∈ vs, d.IsInstance v)
    (hpos : 0 < vs.length) (hle : vs.length ≤ 3) (hl : Lengths vs lens) :
    (r.step self ⟨.normal, op, .method⟩ held site vs).result =
      escaping (.method d.name op) (match reconcileLengths lens with
        | .error cause => fail cause
        | .ok n =>
          match (r.elementLoop self op d vs lens site).run (d.alloc site n) n with
          | (.ok _, q) => .ok (.value (.array ⟨site, d.key, q⟩))
          | (.error e, _) => .error e) := by
  have hc : Call.Takes ⟨.normal, op, .method⟩ vs.length := Call.takes_of_operandCount? rfl hpos hle
  have harr : r.Arrays vs := fun v hv => ⟨d, hd, hvs v hv⟩
  have hunordered : Call.isUnordered ⟨.normal, op, .method⟩ d = false := by
    cases op <;> rfl
  have htarget : r.types.descriptor (Call.resultType ⟨.normal, op, .method⟩ d) = .ok d :=
    TypeTable.descriptor_eq_ok_iff.mpr hd
  have hmov : Call.movable? ⟨.normal, op, .method⟩ vs vs = none := Call.movable?_eq_none (by simp)
  rw [step_of_instances hd hvs hc, hp, if_neg (by simp), Outcome.result_within,
    arrayCall_of_generic hunordered htarget hop, loopCall_of_arrays ht harr hl rfl hmov]
  refine congrArg (escaping _) ?_
  cases reconcileLengths lens with
  | error cause => rfl
  | ok n =>
    simp only
    change (Loop.intoNew (r.elementLoop self op d vs lens site) held site n none vs).result = _
    unfold Loop.intoNew
    change (match (r.elementLoop self op d vs lens site).run (d.alloc site n) n with
      | (.ok _, p) => finish held vs none ⟨site, d.key, p⟩
      | (.error e, _) => Outcome.failed vs e).result = _
    rcases (r.elementLoop self op d vs lens site).run (d.alloc site n) n with ⟨e | u, q⟩ <;> rfl

theorem step_generic_eq_ok_iff (ht : r.types.Regular) (hd : r.types.Registered d)
    (hp : d.isTensor = false) (hop : d.op op = .generic) (hvs : ∀ v ∈ vs, d.IsInstance v)
    (hpos : 0 < vs.length) (hle : vs.length ≤ 3) (hl : Lengths vs lens) {o : Applied} :
    (r.step self ⟨.normal, op, .method⟩ held site vs).result = .ok o ↔
      ∃ n q, Reconciles lens n ∧
        (r.elementLoop self op d vs lens site).run (d.alloc site n) n = (.ok (), q) ∧
        o = .value (.array ⟨site, d.key, q⟩) := by
  have hne : lens ≠ [] := by
    rintro rfl
    cases hl
    simp at hpos
  rw [step_generic_result ht hd hp hop hvs hpos hle hl, escaping_eq_ok_iff]
  cases hn : reconcileLengths lens with
  | error cause =>
    refine ⟨fun h => (by cases h), ?_⟩
    rintro ⟨n, q, hr, _⟩
    rw [(reconcileLengths_eq_ok_iff_reconciles hne).mpr hr] at hn
    cases hn
  | ok n =>
    have hr := (reconcileLengths_eq_ok_iff_reconciles hne).mp hn
    simp only
    constructor
    · intro h
      rcases hrun : (r.elementLoop self op d vs lens site).run (d.alloc site n) n with ⟨e | u, q⟩
      · rw [hrun] at h
        cases h
      · rw [hrun] at h
        cases h
        exact ⟨n, q, hr, hrun, rfl⟩
    · rintro ⟨n', q, hr', hrun, rfl⟩
      cases hr.unique hr'
      rw [hrun]

theorem exists_filledTo_of_step (ht : r.types.Regular) (hd : r.types.Registered d)
    (hp : d.isTensor = false) (hop : d.op op = .generic) (hvs : ∀ v ∈ vs, d.IsInstance v)
    (hpos : 0 < vs.length) (hle : vs.length ≤ 3) (hl : Lengths vs lens) {o : Applied}
    (h : (r.step self ⟨.normal, op, .method⟩ held site vs).result = .ok o) :
    ∃ n q, Reconciles lens n ∧
      (r.elementLoop self op d vs lens site).FilledTo vs (d.alloc site n) n q ∧
      o = .value (.array ⟨site, d.key, q⟩) := by
  obtain ⟨n, q, hr, hrun, ho⟩ := (step_generic_eq_ok_iff ht hd hp hop hvs hpos hle hl).mp h
  have harr : r.Arrays vs := fun v hv => ⟨d, hd, hvs v hv⟩
  have hreads : (r.elementLoop self op d vs lens site).Reads vs n (d.alloc site n) :=
    reads_of_arrays ht harr hl (ht.access_of_registered hd) _ _ _ _
  exact ⟨n, q, hr, hreads.run_filledTo.1 q hrun, ho⟩

theorem exists_elements_of_instances (hp : d.isTensor = false) (hvs : ∀ v ∈ vs, d.IsInstance v)
    (hl : Lengths vs lens) {n i : Nat} (hr : Reconciles lens n) (hi : i < n) :
    ∃ us, Elements vs i us := by
  refine exists_elements hl hr hi fun a ha j hj => ?_
  have hform := (hvs _ ha).form_eq
  refine Payload.exists_get? (fun htensor => ?_) hj
  rw [hform, ← Descriptor.isTensor_iff, hp] at htensor
  cases htensor

theorem hasItem_of_elements (hvs : ∀ v ∈ vs, d.IsInstance v) {i : Nat} {us : List Value}
    (hus : Elements vs i us) : ∀ u ∈ us, d.HasItem u := by
  intro u hu
  obtain ⟨v, hv, huv⟩ := exists_mem_of_forall₂ hus hu
  exact (hvs v hv).hasItem huv

/-! ## Calls on flat types -/

variable {info : TypeInfo} {kind : Kind} {extent : Extent}

theorem exists_scalar_elements (hvs : ∀ v ∈ vs, (Descriptor.flat info kind extent).IsInstance v)
    (hl : Lengths vs lens) {n i : Nat} (hr : Reconciles lens n) (hi : i < n) :
    ∃ ss : List Scalar, Elements vs i (ss.map .scalar) ∧ ss.length = vs.length := by
  obtain ⟨us, hus⟩ := exists_elements_of_instances rfl hvs hl hr hi
  obtain ⟨ss, rfl⟩ := exists_scalars_of_hasItem (hasItem_of_elements hvs hus)
  exact ⟨ss, hus, by simpa using hus.length_eq.symm⟩

theorem onElements_scalars {ss : List Scalar} (hc : Call.Takes ⟨.normal, op, .method⟩ ss.length)
    (s : Site) :
    (r.step self).onElements r.types s ⟨.normal, op, .method⟩ (ss.map .scalar) =
      match Scalar.eval op .method ss with
      | .ok s => .ok (.scalar s)
      | .error cause => fail cause := by
  unfold Dispatcher.onElements
  rw [step_scalars_result hc]
  cases Scalar.eval op .method ss <;> rfl

theorem counterpart_elementLoop_scalars {ss : List Scalar}
    (hc : Call.Takes ⟨.normal, op, .method⟩ ss.length) (lens : List Nat) (s s' : Site) :
    (r.elementLoop (r.step self) op d vs lens s).counterpart s' (ss.map .scalar) =
      match Scalar.eval op .method ss with
      | .ok s => .ok (.scalar s)
      | .error cause => fail cause :=
  onElements_scalars hc s'

/-- A loop that evaluates scalars stores their values, or fails as one evaluation does. -/
theorem run_scalars {l : Loop} {n : Nat} (hreads : l.Reads vs n (.flat (.zeros kind n)))
    (hl : ∀ i, i < n → ∃ ss : List Scalar, Elements vs i (ss.map .scalar) ∧
      l.counterpart (l.site.child i) (ss.map .scalar) =
        match Scalar.eval op .method ss with
        | .ok s => .ok (.scalar s)
        | .error cause => fail cause) :
    (∃ i ss cause q, i < n ∧ Elements vs i (ss.map .scalar) ∧
        Scalar.eval op .method ss = .error cause ∧
        l.run (.flat (.zeros kind n)) n = (.error ⟨cause, [.element i]⟩, q)) ∨
      ∃ b : Buffer, l.run (.flat (.zeros kind n)) n = (.ok (), .flat b) ∧ b.kind = kind ∧
        b.length = n ∧ ∀ i, i < n → ∃ ss s, Elements vs i (ss.map .scalar) ∧
          Scalar.eval op .method ss = .ok s ∧ b.get? i = some ⟨kind, s.store kind⟩ := by
  rcases hrun : l.run (.flat (.zeros kind n)) n with ⟨e | u, q⟩
  · obtain ⟨i, hi, hq, he⟩ := hreads.run_filledTo.2 e q hrun
    obtain ⟨ss, hus, hcp⟩ := hl i hi
    cases heval : Scalar.eval op .method ss with
    | error cause =>
      rw [heval] at hcp
      rw [hreads.position_of_counterpart_error hi hq.rest hus hcp] at he
      cases he
      exact .inl ⟨i, ss, cause, q, hi, hus, heval, rfl⟩
    | ok s =>
      rw [heval] at hcp
      have hlt : i < q.length := by
        rw [hq.length_eq]
        simpa using hi
      obtain ⟨q', hq'⟩ := Payload.exists_set_eq_ok (v := .scalar s) hlt
        (by rw [hq.form_eq]; rfl)
      rw [(hreads.position_eq_ok_iff hi hq.rest).mpr ⟨_, _, hus, hcp, hq'⟩] at he
      cases he
  · have hq := hreads.run_filledTo.1 q hrun
    obtain ⟨b, rfl, hkind⟩ := Payload.form_eq_flat_iff.mp hq.form_eq
    refine .inr ⟨b, rfl, hkind, hq.length_eq.trans (Buffer.length_zeros kind n), fun i hi => ?_⟩
    obtain ⟨ss, hus, hcp⟩ := hl i hi
    obtain ⟨us, v, w, hus', hv, hw, hget⟩ := hq.done i hi
    cases hus.unique hus'
    rw [hcp] at hv
    cases heval : Scalar.eval op .method ss with
    | error cause =>
      rw [heval] at hv
      cases hv
    | ok s =>
      rw [heval] at hv
      cases hv
      cases hw
      obtain ⟨s', hs', hss⟩ := Option.map_eq_some_iff.mp hget
      cases hss
      exact ⟨ss, s, hus, heval, hs'⟩

theorem step_flat_result (self : Dispatcher) (held : List Value) (site : Site)
    (ht : r.types.Regular)
    (hd : r.types.Registered (.flat info kind extent)) (hop : info.ops op = .generic)
    (hvs : ∀ v ∈ vs, (Descriptor.flat info kind extent).IsInstance v) (hpos : 0 < vs.length)
    (hle : vs.length ≤ 3) (hl : Lengths vs lens) {n : Nat} (hr : Reconciles lens n) :
    (∃ i ss cause, i < n ∧ Elements vs i (ss.map .scalar) ∧
        Scalar.eval op .method ss = .error cause ∧
        (r.step (r.step self) ⟨.normal, op, .method⟩ held site vs).result =
          .error ⟨cause, [.element i, .method info.name op]⟩) ∨
      ∃ b : Buffer, (r.step (r.step self) ⟨.normal, op, .method⟩ held site vs).result =
          .ok (.value (.array ⟨site, info.key, .flat b⟩)) ∧ b.kind = kind ∧ b.length = n ∧
        ∀ i, i < n → ∃ ss s, Elements vs i (ss.map .scalar) ∧ Scalar.eval op .method ss = .ok s ∧
          b.get? i = some ⟨kind, s.store kind⟩ := by
  have harr : r.Arrays vs := fun v hv => ⟨_, hd, hvs v hv⟩
  have hreads : (r.elementLoop (r.step self) op (.flat info kind extent) vs lens site).Reads vs n
      (.flat (.zeros kind n)) :=
    reads_of_arrays ht harr hl (ht.access_of_registered hd) _ _ _ _
  have hscalars := run_scalars hreads fun i hi => by
    obtain ⟨ss, hus, hlen⟩ := exists_scalar_elements hvs hl hr hi
    have hc : Call.Takes ⟨.normal, op, .method⟩ ss.length :=
      Call.takes_of_operandCount? rfl (by omega) (by omega)
    exact ⟨ss, hus, counterpart_elementLoop_scalars hc lens site _⟩
  rw [step_generic_result ht hd rfl hop hvs hpos hle hl,
    (reconcileLengths_eq_ok_iff_reconciles (List.ne_nil_of_mem hr.mem)).mpr hr]
  simp only [Descriptor.alloc, Payload.zeros]
  rcases hscalars with ⟨i, ss, cause, q, hi, hus, he, hrun⟩ | ⟨b, hrun, hb⟩
  · rw [hrun]
    exact .inl ⟨i, ss, cause, hi, hus, he, rfl⟩
  · rw [hrun]
    exact .inr ⟨b, rfl, hb⟩

end Registry

end ArrayDispatch
