import ArrayDispatch.Proofs.Dispatch.Tensor
import ArrayDispatch.Proofs.Dispatch.Unification
import ArrayDispatch.Proofs.Types.Lawful

/-!
Operands of a call as unification leaves them. They stay as they are when they are unified again,
and so do their elements.
-/

namespace ArrayDispatch

/-- The value operands are instances of the type `d`, and the mask before them has that type or the
type of its masks. -/
structure Fitting (t : TypeTable) (mode : Mode) (d : Descriptor) (us : List Value) : Prop where
  masks : ∀ u ∈ us.take mode.representative,
    ∃ m, t.Registered m ∧ d.Parallels m ∧ m.IsInstance u
  values : ∀ u ∈ us.drop mode.representative, d.IsInstance u

namespace Fitting

variable {t : TypeTable} {mode : Mode} {d : Descriptor} {us : List Value}

theorem of_instances (hd : t.Registered d) (hus : ∀ u ∈ us, d.IsInstance u) :
    Fitting t mode d us :=
  ⟨fun u hu => ⟨d, hd, .inl rfl, hus u (List.mem_of_mem_take hu)⟩,
    fun u hu => hus u (List.mem_of_mem_drop hu)⟩

theorem exists_isInstance (hd : t.Registered d) (h : Fitting t mode d us) {u : Value}
    (hu : u ∈ us) : ∃ m, t.Registered m ∧ d.Parallels m ∧ m.IsInstance u := by
  rw [← List.take_append_drop mode.representative us, List.mem_append] at hu
  rcases hu with hu | hu
  · exact h.masks u hu
  · exact ⟨d, hd, .inl rfl, h.values u hu⟩

theorem of_masked {m : Descriptor} {u v w : Value} (hm : t.Registered m) (hparallel : d.Parallels m)
    (hu : m.IsInstance u) (hv : d.IsInstance v) (hw : d.IsInstance w) :
    Fitting t .select d [u, v, w] :=
  ⟨List.forall_mem_singleton.mpr ⟨m, hm, hparallel, hu⟩,
    List.forall_mem_cons.mpr ⟨hv, List.forall_mem_singleton.mpr hw⟩⟩

/-- Outside of selections there are no masks. -/
theorem isInstance (h : Fitting t mode d us) (hm : mode ≠ .select) : ∀ u ∈ us, d.IsInstance u := by
  have hvalues := h.values
  rw [Unifier.representative_eq_zero hm] at hvalues
  exact hvalues

theorem elements {info : TypeInfo} {element : Descriptor} {extent : Extent} (ht : t.Regular)
    (h : Fitting t mode (.nested info element extent) us) {i : Nat} {ws : List Value}
    (hws : Elements us i ws) : Fitting t mode element ws := by
  refine ⟨fun w hw => ?_, fun w hw => ?_⟩
  · obtain ⟨u, hu, huw⟩ := exists_mem_of_forall₂ (List.forall₂_take _ hws) hw
    obtain ⟨m, hm, hparallel, hi⟩ := h.masks u hu
    obtain ⟨_, element', _, rfl, helement⟩ := hparallel.exists_nested
    exact ⟨element', ht.registered_component hm rfl, helement, hi.hasItem huw⟩
  · obtain ⟨u, hu, huw⟩ := exists_mem_of_forall₂ (List.forall₂_drop _ hws) hw
    exact (h.values u hu).hasItem huw

section Tensor

variable {info : TypeInfo} {backing : Descriptor}

theorem tensors (hd : t.Registered (.tensor info backing))
    (h : Fitting t mode (.tensor info backing) us) : t.Tensors us := by
  intro u hu
  obtain ⟨m, hm, hparallel, hi⟩ := h.exists_isInstance hd hu
  obtain ⟨info', backing', rfl, _⟩ := hparallel.exists_tensor
  exact ⟨info', backing', hm, hi⟩

theorem expanded (ht : t.Regular) (hd : t.Registered (.tensor info backing))
    (h : Fitting t mode (.tensor info backing) us) {dst : List Nat} {arrays : List Value}
    (hx : List.Forall₂ (Value.Expanded dst) us arrays) : Fitting t mode backing arrays := by
  have hinstance : ∀ {info backing u w}, t.Registered (.tensor info backing) →
      u.Expanded dst w → (Descriptor.tensor info backing).IsInstance u → backing.IsInstance w :=
    fun hreg hw hu => hw.isInstance _ _ (ht.component_isTensor hreg rfl)
      ((ht.placed_of_registered hreg).backing rfl _ rfl) hu
  refine ⟨fun w hw => ?_, fun w hw => ?_⟩
  · obtain ⟨u, hu, huw⟩ := exists_mem_of_forall₂ (List.forall₂_take _ hx) hw
    obtain ⟨m, hm, hparallel, hi⟩ := h.masks u hu
    obtain ⟨info', backing', rfl, hbacking⟩ := hparallel.exists_tensor
    exact ⟨backing', ht.registered_component hm rfl, hbacking, hinstance hm huw hi⟩
  · obtain ⟨u, hu, huw⟩ := exists_mem_of_forall₂ (List.forall₂_drop _ hx) hw
    exact hinstance hd huw (h.values u hu)

end Tensor

section Representative

variable {c : Call} (h : Fitting t c.mode d us) (hlt : c.mode.representative < us.length)

include h hlt

theorem exists_representative :
    ∃ a, c.representative us = .array a ∧ .array a ∈ us ∧ d.IsInstance (.array a) := by
  have hrep := Call.representative_mem_drop hlt
  obtain ⟨a, ha, hi⟩ := h.values _ hrep
  rw [ha] at hrep
  exact ⟨a, ha, List.mem_of_mem_drop hrep, a, rfl, hi⟩

theorem admits {lens : List Nat} {n : Nat} (hl : Lengths us lens) (hr : Reconciles lens n) :
    d.extent.Admits n := by
  obtain ⟨a, ha, hlen⟩ := hl.exists_of_mem hr.mem
  rw [← List.take_append_drop c.mode.representative us, List.mem_append] at ha
  rcases ha with ha | ha
  · obtain ⟨m, _, hparallel, hi⟩ := h.masks _ ha
    rcases hparallel.extent with hsame | ⟨_, hone⟩
    · exact hlen ▸ hsame ▸ hi.admits
    · obtain ⟨b, _, hb, hib⟩ := h.exists_representative hlt
      rcases hr.one_or_eq _ (hl.length_mem hb) with hbn | hbn
      · have hadm := hib.admits
        rw [hbn] at hadm
        cases he : d.extent with
        | dynamic => trivial
        | fixed k =>
          rw [he] at hadm hone
          exact absurd (congrArg Extent.fixed hadm.symm) hone
      · exact hbn ▸ hib.admits
  · exact hlen ▸ (h.values _ ha).admits

end Representative

end Fitting

theorem TypeTable.isInstance_of_adapt {t : TypeTable} {d : Descriptor} (ht : t.Regular)
    (hl : t.Lawful) (hd : t.Registered d) {v w : Value} (hv : t.WellFormed v) {site : Site}
    {i : Nat} (h : t.adapt (site.child i) d.key v = .ok w) : d.IsInstance w :=
  (adapted_of_adapt hd h).isInstance ht hd (hl.convertible d (Regular.mem_of_registered hd)) hv

namespace Registry

variable {r : Registry} {c : Call} {site : Site} {d : Descriptor} {vs us : List Value}

theorem exists_cons_of_select (hm : c.mode = .select) (hlt : c.mode.representative < vs.length) :
    ∃ mask values, vs = mask :: values ∧ values ≠ [] := by
  rw [hm, Mode.representative] at hlt
  cases vs with
  | nil => exact absurd hlt (by simp)
  | cons mask values => exact ⟨mask, values, rfl, List.ne_nil_of_length_pos (by simpa using hlt)⟩

theorem unified_of_fitting (hu : r.unifier = .promote) (hd : r.types.Registered d)
    (h : Fitting r.types c.mode d us) (hlt : c.mode.representative < us.length) :
    r.unified c site us = .ok us := by
  by_cases hm : c.mode = .select
  · obtain ⟨mask, values, rfl, hne⟩ := exists_cons_of_select hm hlt
    rw [hm] at h
    have hvalues : ∀ v ∈ values, d.IsInstance v := h.values
    obtain ⟨m, _, hparallel, hi⟩ := h.masks mask (by simp [Mode.representative])
    rcases hparallel with rfl | hmask
    · have hall : ∀ u ∈ mask :: values, m.IsInstance u := List.forall_mem_cons.mpr ⟨hi, hvalues⟩
      exact unified_of_instances hall
    · have htype : ∀ v ∈ values, v.type? = some d.key := fun v hv => (hvalues v hv).type?
      have hmaskType : mask.type? = some d.maskType := hmask.key_eq ▸ hi.type?
      apply unified_of_unifier
      rw [hu, hm, Unifier.promote_select, TypeTable.target_of_type? hd htype hne]
      simp only [TypeTable.replaceInOrder_of_type? htype, TypeTable.adapt_of_type? hmaskType]
  · exact unified_of_instances (h.isInstance hm)

theorem step_of_fitting {self : Dispatcher} {held : List Value} (hu : r.unifier = .promote)
    (hd : r.types.Registered d) (h : Fitting r.types c.mode d us) (hc : c.Takes us.length) :
    r.step self c held site us =
      (r.resolve self c held site us us).within (r.frameOf c us us) := by
  obtain ⟨a, _, hmem, _⟩ := h.exists_representative hc.representative_lt
  rw [step_of_isArray hc hmem, unified_of_fitting hu hd h hc.representative_lt]

/-- Well-formed operands with an array among them are unified to operands that fit a type. -/
theorem exists_fitting (ht : r.types.Regular) (hl : r.types.Lawful) (hu : r.unifier = .promote)
    (hvs : ∀ v ∈ vs, r.types.WellFormed v) {a : Object} (ha : .array a ∈ vs)
    (hlt : c.mode.representative < vs.length) (h : r.unified c site vs = .ok us) :
    ∃ d, r.types.Registered d ∧ Fitting r.types c.mode d us ∧ us.length = vs.length := by
  by_cases hm : c.mode = .select
  · rcases unified_cases h with ⟨rfl, htags⟩ | h
    · obtain ⟨d, hd, htype⟩ := exists_type?_of_tag_eq hvs ha htags
      exact ⟨d, hd, .of_instances hd fun u hu =>
        TypeTable.isInstance_of_type? hd (hvs u hu) (htype u hu), rfl⟩
    · obtain ⟨mask, values, rfl, hne⟩ := exists_cons_of_select hm hlt
      rw [hu, hm] at h
      obtain ⟨d, mask', values', htarget, hmask, hr, rfl⟩ := Unifier.exists_of_promote_select h
      have hall := TypeTable.forall₂_of_replaceInOrder hr
      have hd := TypeTable.registered_of_target
        (fun v hv => hvs v (List.mem_cons_of_mem _ hv)) htarget
      obtain ⟨m, hreg, hmaskType⟩ := hl.hasMask d (TypeTable.Regular.mem_of_registered hd)
      rw [← hmaskType.key_eq] at hmask
      rw [hm]
      refine ⟨d, hd, ⟨fun u hu => ?_, fun u hu => ?_⟩, congrArg (· + 1) hall.length_eq.symm⟩
      · have hu' : u = mask' := by simpa [Mode.representative] using hu
        rw [hu']
        exact ⟨m, hreg, .inr hmaskType,
          TypeTable.isInstance_of_adapt ht hl hreg (hvs mask (by simp)) hmask⟩
      · obtain ⟨v, hv, j, hj⟩ := exists_mem_of_forall₂ hall hu
        exact TypeTable.isInstance_of_adapt ht hl hd (hvs v (List.mem_cons_of_mem _ hv)) hj
  · obtain ⟨d, hd, hall⟩ := adapted_of_unified hu hvs hm ha h
    refine ⟨d, hd, .of_instances hd fun u hu => ?_, hall.length_eq.symm⟩
    obtain ⟨v, hv, hvu⟩ := exists_mem_of_forall₂ hall hu
    exact hvu.isInstance ht hd (hl.convertible d (TypeTable.Regular.mem_of_registered hd))
      (hvs v hv)

end Registry

end ArrayDispatch
