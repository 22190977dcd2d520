import ArrayDispatch.Dispatch.Apply
import ArrayDispatch.Proofs.Types.Conversion

/-!
Unification by the stock policy. Every operand has the type that the operands are promoted to
already, or becomes a new object of that type.
-/

namespace ArrayDispatch

namespace TypeTable

variable {t : TypeTable} {site : Site} {d : Descriptor} {v w : Value}

/-- `w` is what a value `v` becomes under promotion to the type `d`: itself if it has the type, or
an object that is made below the site. -/
def Adapted (t : TypeTable) (site : Site) (d : Descriptor) (v w : Value) : Prop :=
  (w = v ∧ v.type? = some d.key) ∨
    ∃ i b, w = .array b ∧ b.id = site.child i ∧ t.convertTo (site.child i) v d = .ok b

theorem adapted_of_adapt (hd : t.Registered d) {i : Nat}
    (h : t.adapt (site.child i) d.key v = .ok w) : t.Adapted site d v w := by
  unfold adapt at h
  split at h
  · cases h
    exact .inl ⟨rfl, by assumption⟩
  · rename_i hne
    rw [convert_eq hd] at h
    obtain ⟨b, hb, rfl⟩ := map_eq_ok_iff.mp h
    obtain ⟨hid, htype⟩ := id_type_of_convertTo hb
    refine .inr ⟨i, b, rfl, hid.resolve_left ?_, hb⟩
    rintro rfl
    exact hne (congrArg some htype)

theorem Adapted.type?_eq (h : t.Adapted site d v w) : w.type? = some d.key := by
  rcases h with ⟨rfl, htype⟩ | ⟨i, b, rfl, _, hb⟩
  · exact htype
  · exact congrArg some (id_type_of_convertTo hb).2

theorem Adapted.eq_or_id? (h : t.Adapted site d v w) :
    w = v ∨ ∃ i, w.id? = some (site.child i) := by
  rcases h with ⟨rfl, _⟩ | ⟨i, b, rfl, hid, _⟩
  · exact .inl rfl
  · exact .inr ⟨i, congrArg some hid⟩

theorem isInstance_of_type? (hd : t.Registered d) (hv : t.WellFormed v)
    (h : v.type? = some d.key) : d.IsInstance v := by
  cases v with
  | scalar s => cases h
  | array a =>
    have htype : a.type = d.key := Option.some.inj h
    exact (isInstance_of_descriptor hv (htype ▸ descriptor_eq_ok_iff.mpr hd)).2

theorem Adapted.isInstance (ht : t.Regular) (hd : t.Registered d) (hc : d.Convertible)
    (hv : t.WellFormed v) (h : t.Adapted site d v w) : d.IsInstance w := by
  rcases h with ⟨rfl, htype⟩ | ⟨i, b, rfl, _, hb⟩
  · exact isInstance_of_type? hd hv htype
  · exact isInstance_of_convertTo ht hd hc hv hb

theorem adapt_of_type? {key : TypeKey} (h : v.type? = some key) : t.adapt site key v = .ok v :=
  if_pos h

theorem forall₂_zipIdx_of_replaceInOrder {f : Nat → Value → Dispatched Value} {i : Nat}
    {vs ws : List Value} (h : replaceInOrder f i vs = (.ok (), ws)) :
    List.Forall₂ (fun p w => f p.2 p.1 = .ok w) (vs.zipIdx i) ws := by
  induction vs generalizing i ws with
  | nil =>
    cases h
    exact .nil
  | cons v vs ih =>
    rw [replaceInOrder] at h
    cases hf : f i v with
    | error e =>
      rw [hf] at h
      cases h
    | ok w =>
      rw [hf] at h
      obtain ⟨hr, hw⟩ := Prod.mk.inj h
      subst hw
      exact .cons hf (ih (Prod.ext hr rfl))

theorem forall₂_of_replaceInOrder {f : Nat → Value → Dispatched Value} {i : Nat}
    {vs ws : List Value} (h : replaceInOrder f i vs = (.ok (), ws)) :
    List.Forall₂ (fun v w => ∃ j, f j v = .ok w) vs ws := by
  have hall := forall₂_zipIdx_of_replaceInOrder h
  rw [← List.zipIdx_map_fst i vs, List.forall₂_map_left_iff]
  exact hall.imp fun p w hw => ⟨p.2, hw⟩

theorem mem_of_highestFrom {best : Option Descriptor} {vs : List Value}
    (h : t.highestFrom best vs = .ok (some d)) :
    best = some d ∨ ∃ a, .array a ∈ vs ∧ t.descriptor a.type = .ok d := by
  induction vs generalizing best with
  | nil => exact .inl (Except.ok.inj h)
  | cons v vs ih =>
    cases v with
    | scalar s =>
      rcases ih h with h | ⟨a, ha, hd⟩
      · exact .inl h
      · exact .inr ⟨a, List.mem_cons_of_mem _ ha, hd⟩
    | array a =>
      obtain ⟨e, he, h⟩ := bind_eq_ok_iff.mp h
      rcases ih h with h | ⟨b, hb, hd⟩
      · split at h
        · cases h
          exact .inr ⟨a, by simp, he⟩
        · exact .inl h
      · exact .inr ⟨b, List.mem_cons_of_mem _ hb, hd⟩

theorem registered_of_target {vs : List Value} (hvs : ∀ v ∈ vs, t.WellFormed v)
    (h : t.target vs = .ok d) : t.Registered d := by
  obtain ⟨best, hbest, h⟩ := bind_eq_ok_iff.mp h
  cases best with
  | none => cases h
  | some e =>
    cases h
    rcases mem_of_highestFrom hbest with h | ⟨a, ha, hd⟩
    · cases h
    · exact (isInstance_of_descriptor (hvs _ ha) hd).1

section Uniform

variable {vs : List Value} (hd : t.Registered d) (hvs : ∀ v ∈ vs, v.type? = some d.key)

include hvs

theorem replaceInOrder_of_type? (i : Nat) :
    replaceInOrder (fun i => t.adapt (site.child i) d.key) i vs = (.ok (), vs) := by
  induction vs generalizing i with
  | nil => rfl
  | cons v vs ih =>
    rw [replaceInOrder, adapt_of_type? (hvs v (by simp)),
      ih fun w hw => hvs w (List.mem_cons_of_mem _ hw)]

include hd

theorem highestFrom_of_type? : t.highestFrom (some d) vs = .ok (some d) := by
  induction vs with
  | nil => rfl
  | cons v vs ih =>
    have hrest := ih fun w hw => hvs w (List.mem_cons_of_mem _ hw)
    cases v with
    | scalar s => exact hrest
    | array a =>
      have htype : a.type = d.key := Option.some.inj (hvs (.array a) (by simp))
      rw [highestFrom, htype, descriptor_eq_ok_iff.mpr hd]
      change t.highestFrom (if _ then some d else some d) vs = _
      rw [ite_self]
      exact hrest

theorem target_of_type? (hne : vs ≠ []) : t.target vs = .ok d := by
  suffices hhighest : t.highestFrom none vs = .ok (some d) by
    rw [target, hhighest]
    rfl
  cases vs with
  | nil => exact absurd rfl hne
  | cons v vs =>
    cases v with
    | scalar s => cases hvs (.scalar s) (by simp)
    | array a =>
      have htype : a.type = d.key := Option.some.inj (hvs (.array a) (by simp))
      rw [highestFrom, htype, descriptor_eq_ok_iff.mpr hd]
      exact highestFrom_of_type? hd fun w hw => hvs w (List.mem_cons_of_mem _ hw)

end Uniform

theorem exists_target_scalars (t : TypeTable) (ss : List Scalar) :
    ∃ cause, t.target (ss.map .scalar) = .error cause := by
  have hnone : t.highestFrom none (ss.map .scalar) = .ok none := by
    induction ss with
    | nil => rfl
    | cons s ss ih => exact ih
  rw [target, hnone]
  exact ⟨_, rfl⟩

end TypeTable

namespace Unifier

variable {t : TypeTable} {site : Site} {mode : Mode} {vs us : List Value}

theorem promote_of_target_eq_error {cause : Cause}
    (h : t.target (vs.drop mode.representative) = .error cause) :
    promote t site mode vs = (.error (.ofCause cause), vs) := by
  unfold promote
  simp only [h]

theorem representative_eq_zero (hm : mode ≠ .select) : mode.representative = 0 := by
  cases mode with
  | select => exact absurd rfl hm
  | _ => rfl

/-- Outside of selections all operands are value operands. -/
theorem promote_eq (hm : mode ≠ .select) :
    promote t site mode vs =
      match t.target vs with
      | .error cause => (.error (.ofCause cause), vs)
      | .ok d => replaceInOrder (fun i => t.adapt (site.child i) d.key) 0 vs := by
  unfold promote
  simp only [representative_eq_zero hm, List.drop_zero, List.take_zero]
  cases t.target vs with
  | error cause => rfl
  | ok d =>
    rcases hr : replaceInOrder (fun i => t.adapt (site.child i) d.key) 0 vs with ⟨e | u, values⟩
    · simp [hr]
    · cases mode with
      | select => exact absurd rfl hm
      | _ => simp [hr]

theorem promote_select (mask : Value) :
    promote t site .select (mask :: vs) =
      match t.target vs with
      | .error cause => (.error (.ofCause cause), mask :: vs)
      | .ok d =>
        match replaceInOrder (fun i => t.adapt (site.child i) d.key) 1 vs with
        | (.error e, values) => (.error e, mask :: values)
        | (.ok _, values) =>
          match t.adapt (site.child 0) d.maskType mask with
          | .ok mask => (.ok (), mask :: values)
          | .error e => (.error e, mask :: values) := by
  unfold promote
  simp only [Mode.representative, List.drop_succ_cons, List.drop_zero, List.take_succ_cons,
    List.take_zero]
  cases t.target vs with
  | error cause => rfl
  | ok d =>
    simp only
    rcases replaceInOrder (fun i => t.adapt (site.child i) d.key) 1 vs with ⟨e | u, values⟩ <;> rfl

theorem exists_of_promote (hm : mode ≠ .select) (h : promote t site mode vs = (.ok (), us)) :
    ∃ d, t.target vs = .ok d ∧
      replaceInOrder (fun i => t.adapt (site.child i) d.key) 0 vs = (.ok (), us) := by
  rw [promote_eq hm] at h
  cases hd : t.target vs with
  | error cause =>
    rw [hd] at h
    cases h
  | ok d =>
    rw [hd] at h
    exact ⟨d, rfl, h⟩

theorem adapted_of_promote (hvs : ∀ v ∈ vs, t.WellFormed v) (hm : mode ≠ .select)
    (h : promote t site mode vs = (.ok (), us)) :
    ∃ d, t.Registered d ∧ List.Forall₂ (t.Adapted site d) vs us := by
  obtain ⟨d, hd, hr⟩ := exists_of_promote hm h
  have hreg := TypeTable.registered_of_target hvs hd
  refine ⟨d, hreg, (TypeTable.forall₂_of_replaceInOrder hr).imp ?_⟩
  rintro v w ⟨j, hj⟩
  exact TypeTable.adapted_of_adapt hreg hj

theorem exists_of_promote_select {mask : Value}
    (h : promote t site .select (mask :: vs) = (.ok (), us)) :
    ∃ d mask' values, t.target vs = .ok d ∧ t.adapt (site.child 0) d.maskType mask = .ok mask' ∧
      replaceInOrder (fun i => t.adapt (site.child i) d.key) 1 vs = (.ok (), values) ∧
      us = mask' :: values := by
  rw [promote_select] at h
  cases hd : t.target vs with
  | error cause =>
    rw [hd] at h
    cases h
  | ok d =>
    rw [hd] at h
    simp only at h
    rcases hr : replaceInOrder (fun i => t.adapt (site.child i) d.key) 1 vs with ⟨e | u, values⟩
    · rw [hr] at h
      cases h
    · rw [hr] at h
      cases hmask : t.adapt (site.child 0) d.maskType mask with
      | error e =>
        simp only [hmask] at h
        cases h
      | ok mask' =>
        simp only [hmask] at h
        cases h
        exact ⟨d, mask', values, rfl, hmask, hr, rfl⟩

end Unifier

namespace Registry

variable {r : Registry} {c : Call} {site : Site} {vs us : List Value}

/-! ## Unified operands -/

theorem tag_eq_head_of_any_eq_false {u : Value}
    (h : (((u :: vs).zip vs).any fun p => p.1.tag ≠ p.2.tag) = false) :
    ∀ w ∈ u :: vs, w.tag = u.tag := by
  induction vs generalizing u with
  | nil => simp
  | cons x vs ih =>
    rw [List.zip_cons_cons, List.any_cons, Bool.or_eq_false_iff] at h
    have hux : u.tag = x.tag := by simpa using h.1
    intro w hw
    rcases List.mem_cons.mp hw with rfl | hw
    · rfl
    · exact (ih h.2 w hw).trans hux.symm

theorem tag_eq_of_any_eq_false
    (h : ((vs.zip vs.tail).any fun p => p.1.tag ≠ p.2.tag) = false) {v w : Value} (hv : v ∈ vs)
    (hw : w ∈ vs) : v.tag = w.tag := by
  cases vs with
  | nil => cases hv
  | cons u vs =>
    have hall := tag_eq_head_of_any_eq_false h
    exact (hall v hv).trans (hall w hw).symm

theorem unified_cases (h : r.unified c site vs = .ok us) :
    (us = vs ∧ ∀ v ∈ vs, ∀ w ∈ vs, v.tag = w.tag) ∨
      r.unifier r.types (site.child 1) c.mode vs = (.ok (), us) := by
  unfold unified at h
  cases hany : (vs.zip vs.tail).any fun p => p.1.tag ≠ p.2.tag with
  | false =>
    rw [hany] at h
    cases h
    exact .inl ⟨rfl, fun v hv w hw => tag_eq_of_any_eq_false hany hv hw⟩
  | true =>
    rw [hany] at h
    simp only [if_true] at h
    split at h
    · cases h
      exact .inr (by assumption)
    · cases h

theorem eq_of_unified_scalars (hu : r.unifier = .promote) {ss : List Scalar}
    (h : r.unified c site (ss.map .scalar) = .ok us) : us = ss.map .scalar := by
  rcases unified_cases h with ⟨rfl, _⟩ | h
  · rfl
  · obtain ⟨cause, hcause⟩ := r.types.exists_target_scalars (ss.drop c.mode.representative)
    rw [List.map_drop] at hcause
    rw [hu, Unifier.promote_of_target_eq_error hcause] at h
    cases h

theorem unified_of_unifier (h : r.unifier r.types (site.child 1) c.mode vs = (.ok (), vs)) :
    r.unified c site vs = .ok vs := by
  unfold unified
  rw [h]
  split <;> rfl

theorem type?_of_tag_eq {v w : Value} {key : TypeKey} (h : v.tag = w.tag)
    (hw : w.type? = some key) : v.type? = some key := by
  cases w with
  | scalar s => cases hw
  | array b =>
    cases v with
    | scalar s => cases h
    | array a =>
      injection h with h
      exact (congrArg some h).trans hw

theorem exists_type?_of_tag_eq (hvs : ∀ v ∈ vs, r.types.WellFormed v) {a : Object}
    (ha : .array a ∈ vs) (htags : ∀ v ∈ vs, ∀ w ∈ vs, v.tag = w.tag) :
    ∃ d, r.types.Registered d ∧ ∀ v ∈ vs, v.type? = some d.key := by
  obtain ⟨d, hd, hi⟩ := (hvs _ ha).exists_isInstance
  exact ⟨d, hd, fun v hv => type?_of_tag_eq (htags v hv _ ha) hi.type?⟩

/-- Operands with an array among them, of which all are value operands, are unified to the type of
an array. -/
theorem adapted_of_unified (hu : r.unifier = .promote) (hvs : ∀ v ∈ vs, r.types.WellFormed v)
    (hm : c.mode ≠ .select) {a : Object} (ha : .array a ∈ vs) (h : r.unified c site vs = .ok us) :
    ∃ d, r.types.Registered d ∧ List.Forall₂ (r.types.Adapted (site.child 1) d) vs us := by
  rcases unified_cases h with ⟨rfl, htags⟩ | h
  · obtain ⟨d, hd, htype⟩ := exists_type?_of_tag_eq hvs ha htags
    exact ⟨d, hd, List.forall₂_same.mpr fun v hv => .inl ⟨rfl, htype v hv⟩⟩
  · rw [hu] at h
    exact Unifier.adapted_of_promote hvs hm h

end Registry

end ArrayDispatch
