import ArrayDispatch.Proofs.Dispatch.Result

/-!
The operand that represents a call, in any registry that promotes. The value operands have the type
that they are promoted to; where this is a tensor type, the backing arrays that the call works with
have the backing type, whatever else the operands hold.
-/

namespace ArrayDispatch

/-- A tensor whose backing array has the type `b`. -/
def Value.BackedBy (b : Descriptor) (v : Value) : Prop :=
  ∃ p, v.tensor? = some p ∧ p.1.type = b.key

theorem Descriptor.IsInstance.backedBy {info : TypeInfo} {b : Descriptor} {v : Value}
    (h : (tensor info b).IsInstance v) : v.BackedBy b := by
  obtain ⟨p, hp⟩ := exists_tensor? h
  exact ⟨p, hp, (isInstance_of_tensor? h hp).1.type_eq⟩

/-- The backing array of `v`, expanded to some shape, is the array `w`. -/
def Value.ExpandsTo (v w : Value) : Prop :=
  ∃ p site dst a, v.tensor? = some p ∧ p.1.expand site p.2 dst = .ok a ∧ w = .array a

/-- The backing array of `v` has the type of `w`. -/
def Value.BacksAs (v w : Value) : Prop := ∃ p, v.tensor? = some p ∧ w.type? = some p.1.type

theorem Value.BackedBy.type?_eq {b : Descriptor} {v w : Value} (h : v.BackedBy b)
    (hw : v.BacksAs w) : w.type? = some b.key := by
  obtain ⟨p, hp, htype⟩ := h
  obtain ⟨q, hq, hw⟩ := hw
  cases hp.symm.trans hq
  rw [hw, htype]

theorem Object.type_of_expand {site : Site} {a b : Object} {src dst : List Nat}
    (h : a.expand site src dst = .ok b) : b.type = a.type := by
  rcases expand_cases h with rfl | ⟨index, p, _, rfl⟩ <;> rfl

namespace TypeTable

variable {t : TypeTable} {site : Site} {d b : Descriptor} {info : TypeInfo} {v w : Value}
  {vs us : List Value}

theorem exists_type?_of_target (hvs : ∀ v ∈ vs, t.WellFormed v) (h : t.target vs = .ok d) :
    ∃ v ∈ vs, v.type? = some d.key := by
  obtain ⟨best, hbest, h⟩ := bind_eq_ok_iff.mp h
  cases best with
  | none => cases h
  | some e =>
    cases h
    rcases mem_of_highestFrom hbest with h | ⟨a, ha, hd⟩
    · cases h
    · exact ⟨_, ha, congrArg some (isInstance_of_descriptor (hvs _ ha) hd).2.type_eq⟩

theorem exists_array_of_target (hvs : ∀ v ∈ vs, t.WellFormed v) (h : t.target vs = .ok d) :
    ∃ a, .array a ∈ vs := by
  obtain ⟨v, hv, htype⟩ := exists_type?_of_target hvs h
  cases v with
  | scalar s => cases htype
  | array a => exact ⟨a, hv⟩

theorem backedBy_of_convertTo (hd : t.Registered (.tensor info b)) (hv : t.WellFormed v)
    {a : Object} (h : t.convertTo site v (.tensor info b) = .ok a) :
    (Value.array a).BackedBy b := by
  cases v with
  | scalar s =>
    rw [convertTo_scalar] at h
    obtain ⟨flat, hflat, h⟩ := bind_eq_ok_iff.mp h
    cases h
    exact ⟨_, rfl, (id_type_of_lift hflat).2⟩
  | array c =>
    rcases convertTo_array_cases h with ⟨htype, rfl⟩ | ⟨hne, source, hs⟩
    · exact (isInstance_of_type? hd hv (congrArg some htype)).backedBy
    · rcases convertTo_tensor_cases hne hs h with
        ⟨_, _, flat, _, _, hflat, rfl⟩ | ⟨flat, _, _, hflat, rfl⟩ <;>
        exact ⟨_, rfl, (id_type_of_convertTo hflat).2⟩

theorem Adapted.backedBy (hd : t.Registered (.tensor info b)) (hv : t.WellFormed v)
    (h : t.Adapted site (.tensor info b) v w) : w.BackedBy b := by
  rcases h with ⟨rfl, htype⟩ | ⟨i, a, rfl, _, ha⟩
  · exact (isInstance_of_type? hd hv htype).backedBy
  · exact backedBy_of_convertTo hd hv ha

theorem tensor?_of_partsOf {p : Object × List Nat} (h : t.partsOf v = .ok p) :
    v.tensor? = some p := by
  cases v with
  | scalar s => cases h
  | array a =>
    obtain ⟨e, _, h⟩ := bind_eq_ok_iff.mp h
    unfold Descriptor.tensorParts at h
    split at h
    · cases h
      assumption
    · cases h

theorem expandsTo_of_parts {parts : List (Object × List Nat)} {objects : List Object}
    {shape : List Nat} {k : Nat} (hparts : List.Forall₂ (fun v p => v.tensor? = some p) us parts)
    (hobjects : List.Forall₂ (fun q b => q.1.1.expand (site.child q.2) q.1.2 shape = .ok b)
      (parts.zipIdx k) objects) : List.Forall₂ Value.ExpandsTo us (objects.map .array) := by
  induction hparts generalizing objects k with
  | nil =>
    cases hobjects
    exact .nil
  | cons hv _ ih =>
    cases hobjects with
    | cons hb hrest =>
      exact .cons ⟨_, _, _, _, hv, hb, rfl⟩ (ih hrest)

theorem expandsTo_of_expandAll {arrays : List Value} {shape : List Nat}
    (h : t.expandAll site us = .ok (arrays, shape)) : List.Forall₂ Value.ExpandsTo us arrays := by
  obtain ⟨parts, hparts, h⟩ := bind_eq_ok_iff.mp h
  obtain ⟨shape', _, h⟩ := bind_eq_ok_iff.mp h
  obtain ⟨objects, hobjects, h⟩ := bind_eq_ok_iff.mp h
  cases h
  exact expandsTo_of_parts ((mapM_eq_ok_iff.mp hparts).imp fun _ _ => tensor?_of_partsOf)
    (mapM_eq_ok_iff.mp hobjects)

theorem backsAs_of_expandAll {arrays : List Value} {shape : List Nat}
    (h : t.expandAll site us = .ok (arrays, shape)) : List.Forall₂ Value.BacksAs us arrays :=
  (expandsTo_of_expandAll h).imp fun _ _ ⟨p, _, _, _, hp, ha, hw⟩ =>
    ⟨p, hp, hw ▸ congrArg some (Object.type_of_expand ha)⟩

end TypeTable

namespace Registry

variable {r : Registry} {self : Dispatcher} {c : Call} {held vs us : List Value} {site : Site}
  {d b : Descriptor} {info : TypeInfo}

theorem adapted_of_target (hu : r.unifier = .promote) (hd : r.types.Registered d)
    (hlt : c.mode.representative < vs.length)
    (htarget : r.types.target (vs.drop c.mode.representative) = .ok d)
    (hmem : ∃ v ∈ vs.drop c.mode.representative, v.type? = some d.key)
    (h : r.unified c site vs = .ok us) :
    us.length = vs.length ∧ List.Forall₂ (r.types.Adapted (site.child 1) d)
      (vs.drop c.mode.representative) (us.drop c.mode.representative) := by
  have hadapted : ∀ {v w}, (∃ j, r.types.adapt ((site.child 1).child j) d.key v = .ok w) →
      r.types.Adapted (site.child 1) d v w := fun ⟨_, hj⟩ => TypeTable.adapted_of_adapt hd hj
  rcases unified_cases h with ⟨rfl, htags⟩ | h
  · obtain ⟨v₀, hv₀, htype⟩ := hmem
    refine ⟨rfl, List.forall₂_same.mpr fun v hv => .inl ⟨rfl, ?_⟩⟩
    exact type?_of_tag_eq (htags v (List.mem_of_mem_drop hv) v₀ (List.mem_of_mem_drop hv₀)) htype
  · rw [hu] at h
    by_cases hm : c.mode = .select
    · obtain ⟨mask, values, rfl, _⟩ := exists_cons_of_select hm hlt
      rw [hm] at h htarget ⊢
      obtain ⟨d', mask', values', htarget', _, hr, rfl⟩ := Unifier.exists_of_promote_select h
      cases htarget.symm.trans htarget'
      have hall := TypeTable.forall₂_of_replaceInOrder hr
      exact ⟨congrArg (· + 1) hall.length_eq.symm, hall.imp fun _ _ => hadapted⟩
    · rw [Unifier.representative_eq_zero hm] at htarget ⊢
      obtain ⟨d', htarget', hr⟩ := Unifier.exists_of_promote hm h
      cases htarget.symm.trans htarget'
      have hall := TypeTable.forall₂_of_replaceInOrder hr
      exact ⟨hall.length_eq.symm, hall.imp fun _ _ => hadapted⟩

/-- The value operands `us` of a call have the type `d`. -/
structure Promoted (r : Registry) (c : Call) (d : Descriptor) (us : List Value) : Prop where
  registered : r.types.Registered d
  representative_lt : c.mode.representative < us.length
  type?_eq : ∀ u ∈ us.drop c.mode.representative, u.type? = some d.key

theorem promoted_of_adapted (hd : r.types.Registered d) (hlt : c.mode.representative < us.length)
    {s : Site} (h : List.Forall₂ (r.types.Adapted s d) (vs.drop c.mode.representative)
      (us.drop c.mode.representative)) : r.Promoted c d us := by
  refine ⟨hd, hlt, fun u hu => ?_⟩
  obtain ⟨v, _, hvu⟩ := exists_mem_of_forall₂ h hu
  exact hvu.type?_eq

theorem promoted_of_target (hu : r.unifier = .promote) (hvs : ∀ v ∈ vs, r.types.WellFormed v)
    (hlt : c.mode.representative < vs.length)
    (htarget : r.types.target (vs.drop c.mode.representative) = .ok d)
    (h : r.unified c site vs = .ok us) :
    us.length = vs.length ∧ r.Promoted c d us ∧
      ∀ info b, d = .tensor info b → ∀ u ∈ us.drop c.mode.representative, u.BackedBy b := by
  have hvalues : ∀ v ∈ vs.drop c.mode.representative, r.types.WellFormed v := fun v hv =>
    hvs v (List.mem_of_mem_drop hv)
  have hd := TypeTable.registered_of_target hvalues htarget
  obtain ⟨hlen, hall⟩ := adapted_of_target hu hd hlt htarget
    (TypeTable.exists_type?_of_target hvalues htarget) h
  refine ⟨hlen, promoted_of_adapted hd (hlen ▸ hlt) hall, ?_⟩
  rintro info b rfl u hmem
  obtain ⟨v, hv, hvu⟩ := exists_mem_of_forall₂ hall hmem
  exact hvu.backedBy hd (hvalues v hv)

namespace Promoted

variable (h : r.Promoted c d us)

include h

theorem exists_representative :
    ∃ a, c.representative us = .array a ∧ .array a ∈ us ∧ r.types.descriptor? a.type = some d := by
  have hmem := Call.representative_mem_drop h.representative_lt
  have htype := h.type?_eq _ hmem
  cases hrep : c.representative us with
  | scalar s =>
    rw [hrep] at htype
    cases htype
  | array a =>
    rw [hrep] at htype hmem
    have hkey : a.type = d.key := Option.some.inj htype
    exact ⟨a, rfl, List.mem_of_mem_drop hmem, hkey ▸ h.registered⟩

theorem resolve_eq (operands : List Value) :
    r.resolve self c held site us operands =
      if d.isTensor then r.tensorCall self c held site us operands
      else r.arrayCall self c held site d us operands := by
  obtain ⟨a, ha, _, hfind⟩ := h.exists_representative
  exact resolve_of_representative ha hfind operands

theorem frameOf_eq (operands : List Value) : r.frameOf c us operands = c.frame d.name := by
  obtain ⟨a, ha, _, hfind⟩ := h.exists_representative
  simp [frameOf, ha, Value.type?, Value.object?, hfind]

/-- Operands that are all value operands stay as they are when they are unified again. -/
theorem unified_eq (hm : c.mode ≠ .select) : r.unified c site us = .ok us := by
  have htype := h.type?_eq
  rw [Unifier.representative_eq_zero hm] at htype
  exact unified_of_type? htype

theorem of_unified (hu : r.unifier = .promote) {ws : List Value}
    (hws : r.unified c site us = .ok ws) : r.Promoted c d ws := by
  have hmem := Call.representative_mem_drop h.representative_lt
  have htarget := TypeTable.target_of_type? h.registered h.type?_eq (List.ne_nil_of_mem hmem)
  obtain ⟨hlen, hall⟩ := adapted_of_target hu h.registered h.representative_lt htarget
    ⟨_, hmem, h.type?_eq _ hmem⟩ hws
  exact promoted_of_adapted h.registered (hlen ▸ h.representative_lt) hall

theorem tensorParts_eq (hp : d.isTensor = true) :
    r.tensorParts c site us = (r.types.expandAll (site.child 2) us).map (d, ·) := by
  obtain ⟨a, ha, _, hfind⟩ := h.exists_representative
  rw [tensorParts_of_representative ha hfind, if_pos hp]

end Promoted

theorem Promoted.of_expandAll (hs : r.types.Sound) (h : r.Promoted c (.tensor info b) us)
    (hback : ∀ u ∈ us.drop c.mode.representative, u.BackedBy b) {s : Site} {arrays : List Value}
    {shape : List Nat} (hx : r.types.expandAll s us = .ok (arrays, shape)) :
    arrays.length = us.length ∧ r.Promoted c.inner b arrays := by
  have hall := TypeTable.backsAs_of_expandAll hx
  have hlen := hall.length_eq
  refine ⟨hlen.symm, hs.registered_component h.registered rfl, ?_, fun w hw => ?_⟩
  · rw [c.inner_representative]
    exact hlen ▸ h.representative_lt
  · rw [c.inner_representative] at hw
    obtain ⟨u, hu, huw⟩ := exists_mem_of_forall₂ (List.forall₂_drop _ hall) hw
    exact (hback u hu).type?_eq huw

end Registry

end ArrayDispatch
