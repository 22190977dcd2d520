import ArrayDispatch.Proofs.Dispatch.Arity
import ArrayDispatch.Proofs.Dispatch.Failure
import ArrayDispatch.Proofs.Value.Contents

/-!
What calls with another number of operands than their operation has leave of their operands. A loop
over the storage of operand 0 can only store empty rows before it fails, and finds empty rows there.
-/

namespace ArrayDispatch

theorem contents_replaceObject {site : Site} {vs : List Value} (hh : Handles site vs)
    {a b : Object} (ha : .array a ∈ vs) (hb : b.contents = a.contents) :
    (replaceObject a.id b vs).map Value.contents = vs.map Value.contents := by
  rw [replaceObject, List.map_map]
  refine List.map_congr_left fun v hmem => ?_
  rw [Function.comp_apply]
  split
  · rename_i hid
    have hva : v = .array a := by
      refine hh.coherent v hmem _ ha ?_
      rw [Value.same, hid]
      exact beq_self_eq_true (some a.id)
    rw [hva, Value.contents, Value.contents, hb]
  · rfl

theorem Elements.exists_of_head? {us ws : List Value} {j : Nat} (h : Elements us j ws) {a : Object}
    (ha : us.head? = some (.array a)) (hj : j < a.length) :
    ∃ w ∈ ws, a.payload.get? j = some w := by
  obtain ⟨us, rfl⟩ := List.head?_eq_some_iff.mp ha
  cases h with
  | @cons _ w _ ws haw _ =>
    refine ⟨w, by simp, ?_⟩
    rw [Value.element?] at haw
    split at haw
    · rwa [show j = 0 by omega]
    · exact haw

namespace Registry

variable {r : Registry} {c : Call} {held us vs : List Value} {site : Site} {d : Descriptor}
  {w : Value}

section Rows

variable (ht : r.types.Regular) (hcount : ∀ d ∈ r.types.types, d.CountsOperands) (hc : c.Direct)
  (hm : c.mode = .normal)

include ht hcount hc hm

/-- What an idle call on flat arrays returns is as empty as its operands. -/
theorem contents_of_flat {info : TypeInfo} {kind : Kind} {extent : Extent}
    (hd : r.types.Registered (.flat info kind extent))
    (hus : ∀ u ∈ us, (Descriptor.flat info kind extent).IsInstance u)
    (hn : c.Miscounts us.length) {k : Nat}
    (hw : (r.applyWithin k c held site us).result = .ok (.value w)) {u : Value} (hu : u ∈ us) :
    w.contents = u.contents := by
  cases k with
  | zero => cases hw
  | succ k =>
    have harray := (applyWithin_eq_ok_iff hc hd rfl hus hn k).mp hw
    obtain ⟨_, hzero⟩ := (arrayCall_returns_iff_idle ht hcount hc hm hd rfl hus hn
      (Nat.le_add_left 1 k)).mp ⟨w, harray⟩
    rw [arrayCall_eq_ok_iff hm hd hn (hcount _ (TypeTable.Regular.mem_of_registered hd)),
      loopCall_eq_ok_iff ht hc hm hd hus hn] at harray
    obtain ⟨_, lens, n, q, hl, hr, hrun, rfl⟩ := harray
    obtain rfl := hr.unique ((reconciles_zero_iff hl (List.ne_nil_of_mem hu)).mpr hzero)
    cases hrun
    obtain ⟨⟨id, type, p⟩, rfl, rfl, hholds⟩ := hus u hu
    have hp : p = .zeros kind 0 := by
      have hlength : p.length = 0 := Option.some.inj (hzero _ hu)
      obtain ⟨⟨_, xs⟩, rfl, rfl⟩ := Payload.form_eq_flat_iff.mp (Descriptor.form_of_holds hholds)
      have hxs : xs = [] := List.eq_nil_of_length_eq_zero hlength
      rw [hxs]
      rfl
    rw [hp]
    rfl

/-- What a call on rows returns, if it returns anything, has the contents of each of them. -/
theorem contents_of_rows (hd : r.types.Registered d) (hp : d.isTensor = false)
    (hdim : d.ndim ≤ 2) (hus : ∀ u ∈ us, d.IsInstance u) (hn : c.Miscounts us.length) {k j : Nat}
    {ws : List Value} (hws : Elements us j ws) {s : Site} {v : Value}
    (hv : (r.applyWithin k).onElements r.types s c.onElements ws = .ok v) {u : Value}
    (hu : u ∈ ws) : d.form = .nested ∧ v.contents = u.contents := by
  cases d with
  | flat info kind extent =>
    exact absurd hv ((refuses_items hus hws hn.ne_arity k).onElements _ _ v)
  | nested info element extent =>
    have hde := ht.registered_component hd rfl
    obtain ⟨info', kind, extent', rfl⟩ := Descriptor.exists_flat_of_ndim
      (ht.component_isTensor hd rfl) (Nat.le_of_succ_le_succ hdim)
    have hnws : c.Miscounts ws.length := hws.length_eq ▸ hn
    have hop : c.op ≠ .richcmp := fun hop =>
      (refuses_onElements r k hop hnws.ne_arity).onElements _ _ v hv
    rw [Call.onElements_eq hm hop] at hv
    exact ⟨rfl, contents_of_flat ht hcount hc hm hde (hasItem_of_elements hus hws) hnws
      (Dispatcher.onElements_eq_ok_iff.mp hv) hu⟩
  | tensor info backing => cases hp

/-- A loop over the storage of operand 0 that is interrupted has stored nothing but empty rows in
place of empty rows. -/
theorem contents_of_interrupted (hd : r.types.Registered d) (hp : d.isTensor = false)
    (hdim : d.ndim ≤ 2) (hus : ∀ u ∈ us, d.IsInstance u) (hn : c.Miscounts us.length)
    (hh : Handles site vs) {k n : Nat} {lens : List Nat} {e : DispatchError} {ws : List Value}
    (h : (r.directLoop (r.applyWithin k) c d us lens site).Interrupted site n us vs e ws) :
    ws.map Value.contents = vs.map Value.contents := by
  obtain ⟨i, a, b, q, hu, hv, _, hfilled, hwritten, rfl⟩ := h
  have hform : b.payload.form ≠ .tensor := by
    rw [hwritten.form_eq, (hus _ (List.mem_of_head? hu)).form_eq, ne_eq, ← Descriptor.isTensor_iff,
      hp]
    exact Bool.false_ne_true
  have hpayload : b.payload.contents = a.payload.contents := by
    refine Payload.contents_eq_of_get? hwritten.form_eq hform hwritten.length_eq fun j hj => ?_
    by_cases hji : j < i
    · obtain ⟨xs, v, w, hxs, hcp, hw, hq⟩ := hfilled.done j hji
      obtain ⟨u, hux, hau⟩ := hxs.exists_of_head? hu (hwritten.length_eq ▸ hj)
      obtain ⟨hnested, hcontents⟩ :=
        contents_of_rows ht hcount hc hm hd hp hdim hus hn hxs hcp hux
      change (d.alloc site n).form.admit? v = some w at hw
      rw [d.form_alloc, hnested] at hw
      cases hw
      rw [hwritten.done j hji, hq, hau, Option.map_some, Option.map_some, hcontents]
    · rw [hwritten.rest j (by omega)]
  exact contents_replaceObject hh (List.mem_of_head? hv)
    (Object.contents_eq hwritten.type_eq hpayload)

end Rows

section InPlace

variable {op : Op} {slot : Slot} {e : DispatchError} (ht : r.types.Regular)
  (hcount : ∀ d ∈ r.types.types, d.CountsOperands) (hc : Call.Direct ⟨.inPlace, op, slot⟩)

include ht hcount hc

theorem loopCall_contents_of_error (h : r.UnifiedTo d vs us) (hp : d.isTensor = false)
    (hdim : d.ndim ≤ 2) (hn : Call.Miscounts ⟨.inPlace, op, slot⟩ us.length)
    (hh : Handles site vs) {k : Nat}
    (he : (r.loopCall (r.applyWithin k) ⟨.inPlace, op, slot⟩ held site d d us vs).result =
      .error e) :
    (r.loopCall (r.applyWithin k) ⟨.inPlace, op, slot⟩ held site d d us vs).operands.map
      Value.contents = vs.map Value.contents := by
  rcases loopCall_inPlace_cases ht h hp (List.ne_nil_of_length_pos hn.pos) held with
    ⟨cause, hin, _⟩ |
      ⟨counterpart, lens, n, hcp, hl, hr, _, hin | ⟨a, unique, hu, hv, hfits, hin⟩⟩
  · rw [hin]
    rfl
  · rw [hin] at he ⊢
    rw [intoNew_operands_of_error _ n _ he]
  · have hdirect : Call.Direct ⟨.normal, op, slot⟩ := hc.inner
    cases (hdirect.counterpart_eq r (r.applyWithin k)).symm.trans hcp
    exact contents_of_interrupted ht hcount hdirect rfl h.registered hp hdim (h.isInstance hp)
      hn.inner hh (intoOperand_interrupted ht h hp hl hr hu hv hfits _ unique hin he)

theorem arrayCall_contents_of_error (h : r.UnifiedTo d vs us) (hp : d.isTensor = false)
    (hdim : d.ndim ≤ 2) (hn : Call.Miscounts ⟨.inPlace, op, slot⟩ us.length)
    (hh : Handles site vs) {k : Nat}
    (he : (r.arrayCall (r.applyWithin k) ⟨.inPlace, op, slot⟩ held site d us vs).result =
      .error e) :
    (r.arrayCall (r.applyWithin k) ⟨.inPlace, op, slot⟩ held site d us vs).operands.map
      Value.contents = vs.map Value.contents := by
  have htarget : r.types.descriptor (Call.resultType ⟨.inPlace, op, slot⟩ d) = .ok d :=
    TypeTable.descriptor_eq_ok_iff.mpr h.registered
  unfold arrayCall at he ⊢
  cases hunordered : Call.isUnordered ⟨.inPlace, op, slot⟩ d with
  | true => rfl
  | false =>
    simp only [hunordered, Bool.false_eq_true, if_false, htarget] at he ⊢
    cases hop : d.op op with
    | unsupported => rfl
    | native kernel =>
      simp only [hop] at he ⊢
      cases hq : payloads us >>= kernel.run op slot with
      | error cause => rfl
      | ok p =>
        rw [hq] at he
        exact absurd he (finish_result_ne _ _ e)
    | generic =>
      simp only [hop] at he ⊢
      exact loopCall_contents_of_error ht hcount hc h hp hdim hn hh he

theorem step_contents_of_error (hu : r.unifier = .promote) (hdim : ∀ d ∈ r.types.types, d.ndim ≤ 2)
    (hvs : ∀ v ∈ vs, r.types.WellFormed v) (hh : Handles site vs)
    (hn : Call.Miscounts ⟨.inPlace, op, slot⟩ vs.length) {k : Nat}
    (he : (r.step (r.applyWithin k) ⟨.inPlace, op, slot⟩ held site vs).result = .error e) :
    (r.step (r.applyWithin k) ⟨.inPlace, op, slot⟩ held site vs).operands.map Value.contents =
      vs.map Value.contents := by
  have htakes := hc.takes hn
  rcases Value.exists_scalars_or_array vs with ⟨ss, rfl⟩ | ⟨a, ha⟩
  · rw [step_scalars (by simpa using htakes)] at he ⊢
    rw [scalarCall_operands_of_error he]
  · rw [step_of_isArray htakes ha] at he ⊢
    cases hus : r.unified ⟨.inPlace, op, slot⟩ site vs with
    | error e => rfl
    | ok us =>
      obtain ⟨d, h, hcountu⟩ := exists_unifiedTo ht hu hvs hh (by simp) ha hus
      have hnu : Call.Miscounts ⟨.inPlace, op, slot⟩ us.length := hcountu ▸ hn
      simp only [hus, Outcome.result_within, Outcome.operands_within] at he ⊢
      obtain ⟨e', he, _⟩ := escaping_eq_error_iff.mp he
      rw [resolve_of_type? h.registered h.type?_eq (hc.takes hnu)] at he ⊢
      cases hp : d.isTensor with
      | true =>
        simp only [hp, if_true] at he ⊢
        rw [tensorCall_operands_of_error he]
      | false =>
        simp only [hp, Bool.false_eq_true, if_false] at he ⊢
        exact arrayCall_contents_of_error ht hcount hc h hp
          (hdim d (TypeTable.Regular.mem_of_registered h.registered)) hnu hh he

end InPlace

/-- A call that returns no value leaves its operands as they are, but for empty rows that a call in
place may have put in place of empty rows. -/
theorem apply_contents (ht : r.types.Regular) (hu : r.unifier = .promote)
    (hcount : ∀ d ∈ r.types.types, d.CountsOperands) (hdim : ∀ d ∈ r.types.types, d.ndim ≤ 2)
    (hc : c.Direct) (hvs : ∀ v ∈ vs, r.types.WellFormed v) (hh : Handles site vs)
    (hn : c.Miscounts vs.length) {held : List Value}
    (hnone : (r.apply c held site vs).value? = none) :
    (r.apply c held site vs).operands.map Value.contents = vs.map Value.contents := by
  obtain ⟨k, hk⟩ := r.exists_apply_eq vs
  rw [hk] at hnone ⊢
  change ((r.step (r.applyWithin (k + 1)) c held site vs).value? = none) at hnone
  change (r.step (r.applyWithin (k + 1)) c held site vs).operands.map _ = _
  obtain ⟨mode, op, slot⟩ := c
  rcases hc.mode_cases with rfl | rfl
  · rw [step_leavesAlone (.inl (by simp))]
  · rcases hres : (r.step (r.applyWithin (k + 1)) ⟨.inPlace, op, slot⟩ held site vs).result with
      e | ⟨v | _⟩
    · exact step_contents_of_error ht hcount hc hu hdim hvs hh hn hres
    · rw [Outcome.value?_eq_some_iff.mpr hres] at hnone
      cases hnone
    · rw [step_leavesAlone (.inr hres)]

end Registry

end ArrayDispatch
