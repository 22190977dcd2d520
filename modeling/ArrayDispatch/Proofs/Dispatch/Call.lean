import ArrayDispatch.Dispatch.Apply
import ArrayDispatch.Proofs.Dispatch.Loop

/-!
Calls whose operands have one type: they reach the table of operations of that type unchanged, and
the generic loop reads all of them.
-/

namespace ArrayDispatch

structure Call.Takes (c : Call) (n : Nat) : Prop where
  pos : 0 < n
  le_three : n ≤ 3
  count : ∀ m, c.mode.operandCount? = some m → m = n

theorem Op.arity_pos (op : Op) : 0 < op.arity := by
  cases op <;> decide

theorem Op.arity_le_three (op : Op) : op.arity ≤ 3 := by
  cases op <;> decide

/-- Calls whose mode does not count its operands take one to three of them. -/
theorem Call.takes_of_operandCount? {c : Call} {n : Nat} (hm : c.mode.operandCount? = none)
    (hpos : 0 < n) (hle : n ≤ 3) : c.Takes n := by
  refine ⟨hpos, hle, fun k hk => ?_⟩
  rw [hm] at hk
  cases hk

theorem Call.Takes.representative_lt {c : Call} {n : Nat} (h : c.Takes n) :
    c.mode.representative < n := by
  obtain ⟨hpos, _, hcount⟩ := h
  cases hm : c.mode with
  | select =>
    have := hcount 3 (by rw [hm]; rfl)
    rw [Mode.representative]
    omega
  | _ => exact hpos

theorem Call.representative_mem_drop {c : Call} {vs : List Value}
    (h : c.mode.representative < vs.length) :
    c.representative vs ∈ vs.drop c.mode.representative := by
  rw [representative, List.getD_eq_getElem?_getD, List.getElem?_eq_getElem h,
    List.drop_eq_getElem_cons h]
  exact List.mem_cons_self

theorem Call.representative_mem {c : Call} {vs : List Value} (h : c.Takes vs.length) :
    c.representative vs ∈ vs :=
  List.mem_of_mem_drop (representative_mem_drop h.representative_lt)

theorem Call.representative_scalars (c : Call) (ss : List Scalar) :
    c.representative (ss.map .scalar) = .scalar (ss.getD c.mode.representative default) := by
  rw [representative, List.getD_eq_getElem?_getD, List.getElem?_map, List.getD_eq_getElem?_getD]
  cases ss[c.mode.representative]? <;> rfl

/-- Only calls in place have an object to write, and only operand 0. -/
theorem Call.movable?_eq_some_iff {c : Call} {us vs : List Value} {a : Object} :
    c.movable? us vs = some a ↔
      c.mode = .inPlace ∧ vs.head? = some (.array a) ∧
        ∃ b, us.head? = some (.array b) ∧ b.id = a.id := by
  constructor
  · intro h
    unfold movable? at h
    split at h
    · split at h
      · rename_i hid
        cases h
        exact ⟨hid.1, rfl, _, rfl, hid.2⟩
      · cases h
    · cases h
  · rintro ⟨hm, hv, b, hu, hid⟩
    cases us with
    | nil => cases hu
    | cons u us =>
      cases vs with
      | nil => cases hv
      | cons v vs =>
        cases hu
        cases hv
        simp [movable?, hm, hid]

theorem Call.movable?_eq_none {c : Call} {us vs : List Value} (hm : c.mode ≠ .inPlace) :
    c.movable? us vs = none := by
  cases h : c.movable? us vs with
  | none => rfl
  | some a => exact absurd (movable?_eq_some_iff.mp h).1 hm

theorem Value.mapM_scalar?_eq_some_iff {vs : List Value} {ss : List Scalar} :
    vs.mapM Value.scalar? = some ss ↔ vs = ss.map .scalar := by
  constructor
  · intro h
    induction vs generalizing ss with
    | nil =>
      cases h
      rfl
    | cons v vs ih =>
      rw [List.mapM_cons] at h
      obtain ⟨s, hs, h⟩ := Option.bind_eq_some_iff.mp h
      obtain ⟨ss', hss, h⟩ := Option.bind_eq_some_iff.mp h
      cases h
      cases v with
      | scalar s' =>
        cases hs
        rw [List.map_cons, ih hss]
      | array a => cases hs
  · rintro rfl
    induction ss with
    | nil => rfl
    | cons s ss ih =>
      rw [List.map_cons, List.mapM_cons, ih]
      rfl

theorem Value.exists_scalars_or_array (vs : List Value) :
    (∃ ss : List Scalar, vs = ss.map .scalar) ∨ ∃ a, .array a ∈ vs := by
  induction vs with
  | nil => exact .inl ⟨[], rfl⟩
  | cons v vs ih =>
    cases v with
    | array a => exact .inr ⟨a, by simp⟩
    | scalar s =>
      rcases ih with ⟨ss, rfl⟩ | ⟨a, ha⟩
      · exact .inl ⟨s :: ss, rfl⟩
      · exact .inr ⟨a, List.mem_cons_of_mem _ ha⟩

theorem Object.expand_cases {site : Site} {a b : Object} {src dst : List Nat}
    (h : a.expand site src dst = .ok b) :
    b = a ∨ ∃ index p, a.payload.gather? index = some p ∧ b = ⟨site, a.type, p⟩ := by
  unfold expand at h
  split at h
  · cases h
    exact .inl rfl
  · obtain ⟨index, _, h⟩ := bind_eq_ok_iff.mp h
    split at h
    · rename_i p hp
      cases h
      exact .inr ⟨index, p, hp, rfl⟩
    · cases h

namespace Registry

variable {r : Registry} {self : Dispatcher} {c : Call} {held vs : List Value} {site : Site}
  {d : Descriptor}

/-! ## Scalars -/

theorem step_scalars {ss : List Scalar} (hc : c.Takes ss.length) :
    r.step self c held site (ss.map .scalar) = scalarCall c ss (ss.map .scalar) := by
  have hcount : c.mode.operandCount?.any (· ≠ (ss.map Value.scalar).length) = false := by
    cases hm : c.mode.operandCount? with
    | none => rfl
    | some m => simp [hc.count m hm]
  have hpos := hc.pos
  have hle := hc.le_three
  unfold step
  simp only [hcount, Value.mapM_scalar?_eq_some_iff.mpr rfl]
  rw [if_neg (by simp only [Bool.false_eq_true, or_false, not_or, List.length_map]; omega)]

theorem step_scalars_result {ss : List Scalar} (hc : c.Takes ss.length) :
    (r.step self c held site (ss.map .scalar)).result =
      match Scalar.eval c.op c.slot ss with
      | .ok s => .ok (.value (.scalar s))
      | .error cause => fail cause := by
  rw [step_scalars hc]
  unfold scalarCall
  cases Scalar.eval c.op c.slot ss <;> rfl

theorem step_scalars_eq_ok_iff {ss : List Scalar} (hc : c.Takes ss.length) {v : Value} :
    (r.step self c held site (ss.map .scalar)).result = .ok (.value v) ↔
      ∃ s, Scalar.eval c.op c.slot ss = .ok s ∧ v = .scalar s := by
  rw [step_scalars_result hc]
  cases Scalar.eval c.op c.slot ss with
  | error cause => simp [fail]
  | ok s => simp [eq_comm]

/-! ## Uniform operands -/

theorem unified_of_tag_eq (tag : TypeTag) (h : ∀ v ∈ vs, v.tag = tag) :
    r.unified c site vs = .ok vs := by
  have hany : ((vs.zip vs.tail).any fun p => p.1.tag ≠ p.2.tag) = false := by
    rw [List.any_eq_false]
    rintro ⟨v, w⟩ hm
    have hv := h v (List.of_mem_zip hm).1
    have hw := h w (List.mem_of_mem_tail (List.of_mem_zip hm).2)
    simp [hv, hw]
  unfold unified
  rw [hany]
  rfl

theorem unified_of_type? {key : TypeKey} (h : ∀ v ∈ vs, v.type? = some key) :
    r.unified c site vs = .ok vs := by
  refine unified_of_tag_eq (.array key) fun v hv => ?_
  have htype := h v hv
  cases v with
  | scalar s => cases htype
  | array a => exact congrArg TypeTag.array (Option.some.inj htype)

theorem step_of_not_takes (h : ¬c.Takes vs.length) :
    r.step self c held site vs = .failedBy vs (.arity c.op c.expected vs.length) := by
  unfold step
  refine if_pos ?_
  by_contra hnot
  rw [not_or, not_or] at hnot
  refine h ⟨by omega, by omega, fun m hm => ?_⟩
  simpa [hm] using hnot.2.2

theorem step_of_isArray (hc : c.Takes vs.length) {a : Object} (ha : .array a ∈ vs) :
    r.step self c held site vs =
      match r.unified c site vs with
      | .error e => .failed vs e
      | .ok unified =>
        (r.resolve self c held site unified vs).within (r.frameOf c unified vs) := by
  have hscalars : vs.mapM Value.scalar? = none := by
    cases h : vs.mapM Value.scalar? with
    | none => rfl
    | some ss =>
      rw [Value.mapM_scalar?_eq_some_iff.mp h] at ha
      simp at ha
  have hcount : c.mode.operandCount?.any (· ≠ vs.length) = false := by
    cases hm : c.mode.operandCount? with
    | none => rfl
    | some m => simp [hc.count m hm]
  unfold step
  have hpos := hc.pos
  have hle := hc.le_three
  simp only [hcount, hscalars]
  exact if_neg (by simp only [Bool.false_eq_true, or_false, not_or]; omega)

theorem step_of_unified (hc : c.Takes vs.length) {a : Object} (ha : .array a ∈ vs)
    {us : List Value} (h : r.unified c site vs = .ok us) :
    r.step self c held site vs =
      (r.resolve self c held site us vs).within (r.frameOf c us vs) := by
  rw [step_of_isArray hc ha, h]

theorem resolve_of_representative {unified : List Value} {a : Object}
    (ha : c.representative unified = .array a) (hfind : r.types.descriptor? a.type = some d)
    (operands : List Value) :
    r.resolve self c held site unified operands =
      if d.isTensor then r.tensorCall self c held site unified operands
      else r.arrayCall self c held site d unified operands := by
  have hget : r.types.descriptor a.type = .ok d := TypeTable.descriptor_eq_ok_iff.mpr hfind
  simp only [resolve, ha, hget]

theorem tensorParts_of_representative {unified : List Value} {a : Object}
    (ha : c.representative unified = .array a) (hfind : r.types.descriptor? a.type = some d) :
    r.tensorParts c site unified =
      if d.isTensor then (r.types.expandAll (site.child 2) unified).map (d, ·)
      else .error (.notTensor d.name) := by
  have hget : r.types.descriptor a.type = .ok d := TypeTable.descriptor_eq_ok_iff.mpr hfind
  have hd : r.types.tensorDescriptor (.array a) =
      if d.isTensor then .ok d else .error (.notTensor d.name) := by
    rw [TypeTable.tensorDescriptor, hget]
    rfl
  unfold tensorParts
  rw [ha, hd]
  split
  · change (r.types.expandAll (site.child 2) unified >>= fun expanded => pure (d, expanded)) = _
    cases r.types.expandAll (site.child 2) unified <;> rfl
  · rfl

section Unified

variable {unified : List Value} (hd : r.types.Registered d)
  (hus : ∀ u ∈ unified, u.type? = some d.key) (hc : c.Takes unified.length)

include hd hus hc

theorem exists_representative :
    ∃ a, c.representative unified = .array a ∧ .array a ∈ unified ∧
      r.types.descriptor? a.type = some d := by
  have hmem := Call.representative_mem hc
  cases hrep : c.representative unified with
  | scalar s =>
    rw [hrep] at hmem
    cases hus _ hmem
  | array a =>
    rw [hrep] at hmem
    have htype : a.type = d.key := Option.some.inj (hus _ hmem)
    exact ⟨a, rfl, hmem, htype ▸ hd⟩

theorem frameOf_of_type? (operands : List Value) :
    r.frameOf c unified operands = c.frame d.name := by
  obtain ⟨a, ha, _, hfind⟩ := exists_representative hd hus hc
  simp [frameOf, ha, Value.type?, Value.object?, hfind]

theorem resolve_of_type? (operands : List Value) :
    r.resolve self c held site unified operands =
      if d.isTensor then r.tensorCall self c held site unified operands
      else r.arrayCall self c held site d unified operands := by
  obtain ⟨a, ha, _, hfind⟩ := exists_representative hd hus hc
  exact resolve_of_representative ha hfind operands

end Unified

theorem step_of_type? (hd : r.types.Registered d) (hvs : ∀ v ∈ vs, v.type? = some d.key)
    (hc : c.Takes vs.length) :
    r.step self c held site vs =
      (if d.isTensor then r.tensorCall self c held site vs vs
        else r.arrayCall self c held site d vs vs).within (c.frame d.name) := by
  obtain ⟨a, _, hmem, _⟩ := exists_representative hd hvs hc
  rw [step_of_isArray hc hmem, unified_of_type? hvs]
  simp only [frameOf_of_type? hd hvs hc, resolve_of_type? hd hvs hc]

section Instances

variable (hd : r.types.Registered d) (hvs : ∀ v ∈ vs, d.IsInstance v)

include hvs

theorem unified_of_instances : r.unified c site vs = .ok vs :=
  unified_of_type? fun v hv => (hvs v hv).type?

include hd

theorem step_of_instances (hc : c.Takes vs.length) :
    r.step self c held site vs =
      (if d.isTensor then r.tensorCall self c held site vs vs
        else r.arrayCall self c held site d vs vs).within (c.frame d.name) :=
  step_of_type? hd (fun v hv => (hvs v hv).type?) hc

end Instances

theorem arrayCall_of_generic {operands : List Value} {target : Descriptor}
    (hu : c.isUnordered d = false) (ht : r.types.descriptor (c.resultType d) = .ok target)
    (hop : d.op c.op = .generic) :
    r.arrayCall self c held site d vs operands =
      r.loopCall self c held site d target vs operands := by
  unfold arrayCall
  rw [hu]
  simp only [Bool.false_eq_true, if_false, ht, hop]

theorem exists_levels_eq (r : Registry) (vs : List Value) : ∃ k, r.levels vs = k + 2 := by
  have h : 2 * 4 ≤ r.levels vs := Nat.mul_le_mul (by omega) (by omega)
  exact ⟨r.levels vs - 2, by omega⟩

/-- The bound on nested calls admits the call itself and one on elements. -/
theorem exists_apply_eq (r : Registry) (vs : List Value) : ∃ k, ∀ c held site,
    r.apply c held site vs = r.step (r.step (r.applyWithin k)) c held site vs := by
  obtain ⟨k, hk⟩ := r.exists_levels_eq vs
  refine ⟨k, fun c held site => ?_⟩
  unfold apply
  rw [hk]
  rfl

theorem apply_scalars_result (r : Registry) (ss : List Scalar) (hc : c.Takes ss.length)
    (held : List Value) (site : Site) :
    (r.apply c held site (ss.map .scalar)).result =
      match Scalar.eval c.op c.slot ss with
      | .ok s => .ok (.value (.scalar s))
      | .error cause => fail cause := by
  obtain ⟨k, hk⟩ := r.exists_apply_eq (ss.map .scalar)
  rw [hk, step_scalars_result hc]

theorem apply_of_unified_eq_error (hc : c.Takes vs.length) {a : Object}
    (ha : .array a ∈ vs) {e : DispatchError} (h : r.unified c site vs = .error e)
    (held : List Value) : r.apply c held site vs = .failed vs e := by
  obtain ⟨k, hk⟩ := r.exists_apply_eq vs
  rw [hk, step_of_isArray hc ha, h]

/-- The bound on nested calls lets every level of a registered type be reached, also below a
tensor. -/
theorem succ_ndim_lt_levels (hd : r.types.Registered d) (vs : List Value) :
    d.ndim + 1 < r.levels vs := by
  have hle := TypeTable.ndim_le_depth (TypeTable.Regular.mem_of_registered hd)
  calc d.ndim + 1 < r.types.depth + 2 := by omega
    _ = (r.types.depth + 2) * 1 := by omega
    _ ≤ (r.types.depth + 2) * ((vs.map Value.depth).foldr (· + ·) 0 + 4) :=
      Nat.mul_le_mul_left _ (by omega)

theorem ndim_lt_levels (hd : r.types.Registered d) (vs : List Value) : d.ndim < r.levels vs :=
  Nat.lt_of_succ_lt (succ_ndim_lt_levels hd vs)

/-! ## The generic loop -/

/-- Every operand is an instance of some registered type. -/
def Arrays (r : Registry) (vs : List Value) : Prop :=
  ∀ v ∈ vs, ∃ d, r.types.Registered d ∧ d.IsInstance v

theorem exists_lengths (hvs : r.Arrays vs) : ∃ lens, Lengths vs lens := by
  induction vs with
  | nil => exact ⟨[], .nil⟩
  | cons v vs ih =>
    obtain ⟨lens, hl⟩ := ih fun w hw => hvs w (List.mem_cons_of_mem _ hw)
    obtain ⟨d, _, a, rfl, _, _⟩ := hvs v (by simp)
    exact ⟨a.length :: lens, .cons rfl hl⟩

theorem operandLengths_eq (ht : r.types.Regular) (hvs : r.Arrays vs) {lens : List Nat}
    (hl : Lengths vs lens) : vs.mapM r.types.operandLength = .ok lens := by
  rw [mapM_eq_ok_iff]
  induction hl with
  | nil => exact .nil
  | @cons v n vs lens hv _ ih =>
    refine .cons ?_ (ih fun w hw => hvs w (List.mem_cons_of_mem _ hw))
    obtain ⟨d, hd, a, rfl, htype, hp⟩ := hvs v (by simp)
    cases hv
    have hget : r.types.descriptor a.type = .ok d :=
      TypeTable.descriptor_eq_ok_iff.mpr (htype ▸ hd)
    rw [TypeTable.operandLength, hget]
    exact congrArg Except.ok (d.lengthOf_of_holds (ht.access_of_registered hd) hp)

theorem access_of_arrays (ht : r.types.Regular) (hvs : r.Arrays vs) (a : Object)
    (ha : .array a ∈ vs) :
    ∃ d, r.types.descriptor? a.type = some d ∧ d.info.access = .stock := by
  obtain ⟨d, hd, hi⟩ := hvs _ ha
  have htype := hi.type_eq
  exact ⟨d, htype ▸ hd, ht.access_of_registered hd⟩

/-- A loop none of whose operands is the storage that it writes reads its operands. -/
theorem reads_of_arrays (ht : r.types.Regular) (hvs : r.Arrays vs) {lens : List Nat}
    (hl : Lengths vs lens) {target : Descriptor} (hta : target.info.access = .stock)
    (counterpart : Counterpart) (loopSite : Site) (n : Nat) (p : Payload) :
    (Loop.mk r.types target counterpart ((vs.map some).zip lens) loopSite).Reads vs n p := by
  refine ⟨?_, access_of_arrays ht hvs, hta⟩
  clear hvs
  induction hl with
  | nil => exact .nil
  | cons hv _ ih => exact .cons ⟨hv, .inl rfl⟩ ih

theorem loopParts_of_arrays (ht : r.types.Regular) (hvs : r.Arrays vs) {lens : List Nat}
    (hl : Lengths vs lens) {counterpart : Counterpart}
    (hcp : r.counterpart self c = .ok counterpart) :
    r.loopParts self c vs = (reconcileLengths lens).map fun n => (counterpart, lens, n) := by
  unfold loopParts
  rw [hcp, operandLengths_eq ht hvs hl]
  change (reconcileLengths lens >>= fun n => pure (counterpart, lens, n)) = _
  cases reconcileLengths lens <;> rfl

theorem loopCall_of_arrays (ht : r.types.Regular) (hvs : r.Arrays vs) {lens : List Nat}
    (hl : Lengths vs lens) {counterpart : Counterpart}
    (hcp : r.counterpart self c = .ok counterpart) {operands : List Value}
    (hm : c.movable? vs operands = none) (source target : Descriptor) :
    r.loopCall self c held site source target vs operands =
      match reconcileLengths lens with
      | .error cause => .failedBy operands cause
      | .ok n =>
        (Loop.mk r.types target counterpart ((vs.map some).zip lens) (site.child 4)).intoNew held
          site n none operands := by
  unfold loopCall
  rw [loopParts_of_arrays ht hvs hl hcp, hm]
  cases reconcileLengths lens <;> rfl

end Registry

end ArrayDispatch
