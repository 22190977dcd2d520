import ArrayDispatch.Proofs.Dispatch.Bisimulation
import ArrayDispatch.Proofs.Dispatch.Promotion
import ArrayDispatch.Proofs.Dispatch.Related
import ArrayDispatch.Proofs.Types.LeafConversion
import ArrayDispatch.Proofs.Types.Relocation

/-!
Selections look at the truth of their mask only. A mask that is brought to the mask type of the
alternatives selects what the mask itself does, whether the call converts it or, since all operands
have one type already, leaves it as it is.
-/

namespace ArrayDispatch

def Scalar.SameTruth (x y : Scalar) : Prop := x.truth = y.truth

/-- Operands of selections: masks that select alike, and the same alternatives. -/
inductive Selects (d : Descriptor) : List Value → List Value → Prop
  | mk {mask mask' t t' f f' : Value} (hmask : d.Related Scalar.SameTruth mask mask')
      (ht : d.Related Eq t t') (hf : d.Related Eq f f') : Selects d [mask, t, f] [mask', t', f']

/-! ## Masks that select alike -/

theorem Scalar.eval_select_congr {x y t f : Scalar} (h : x.SameTruth y) (slot : Slot) :
    eval .select slot [x, t, f] = eval .select slot [y, t, f] := by
  change Except.ok (select x t f) = .ok (select y t f)
  rw [select, select, h]

/-- A selection cannot tell masks apart that select alike. -/
theorem bisimulation_selects {c : Call} (hc : c.op = .select) : c.Bisimulation Selects where
  lengths hp h hl hl' := by
    obtain ⟨hmask, ht, hf⟩ := h
    obtain ⟨k, m, n, rfl, hk, hm, hn⟩ := exists_triple_of_forall₂ hl
    obtain ⟨k', m', n', rfl, hk', hm', hn'⟩ := exists_triple_of_forall₂ hl'
    rw [hmask.length?_eq hp, hk] at hk'
    rw [ht.length?_eq hp, hm] at hm'
    rw [hf.length?_eq hp, hn] at hn'
    cases hk'
    cases hm'
    cases hn'
    exact Dispatched.corresponds_self _
  scalars h hss hss' := by
    obtain ⟨hmask, ht, hf⟩ := h
    obtain ⟨x, y, z, rfl, hx, hy, hz⟩ :=
      exists_triple_of_forall₂ (List.forall₂_map_right_iff.mp hss)
    obtain ⟨x', y', z', rfl, hx', hy', hz'⟩ :=
      exists_triple_of_forall₂ (List.forall₂_map_right_iff.mp hss')
    cases ht.scalars hy hy'
    cases hf.scalars hz hz'
    rw [hc]
    exact Scalar.eval_select_congr (hmask.scalars hx hx') c.slot
  elements hp h hws hws' := by
    obtain ⟨hmask, ht, hf⟩ := h
    obtain ⟨u, v, w, rfl, hu, hv, hw⟩ := exists_triple_of_forall₂ hws
    obtain ⟨u', v', w', rfl, hu', hv', hw'⟩ := exists_triple_of_forall₂ hws'
    exact ⟨hmask.elements hp hu hu', ht.elements hp hv hv', hf.elements hp hw hw'⟩
  shapes h hs hs' := by
    obtain ⟨hmask, ht, hf⟩ := h
    obtain ⟨k, m, n, rfl, hk, hm, hn⟩ := exists_triple_of_forall₂ hs
    obtain ⟨k', m', n', rfl, hk', hm', hn'⟩ := exists_triple_of_forall₂ hs'
    rw [hmask.shape?_eq, hk] at hk'
    rw [ht.shape?_eq, hm] at hm'
    rw [hf.shape?_eq, hn] at hn'
    cases hk'
    cases hm'
    cases hn'
    exact Dispatched.corresponds_self _
  expanded hp h hpos hx hx' := by
    obtain ⟨hmask, ht, hf⟩ := h
    simp only [List.forall_mem_cons] at hpos
    obtain ⟨hposMask, hposT, hposF, _⟩ := hpos
    obtain ⟨u, v, w, rfl, hu, hv, hw⟩ := exists_triple_of_forall₂ hx
    obtain ⟨u', v', w', rfl, hu', hv', hw'⟩ := exists_triple_of_forall₂ hx'
    exact ⟨hmask.expanded hp hposMask hu hu', ht.expanded hp hposT hv hv',
      hf.expanded hp hposF hw hw'⟩

/-! ## Masks of one layout -/

namespace Descriptor.HasMask

variable {d m : Descriptor} {E : Scalar → Scalar → Prop} {v w : Value}

theorem ndim_eq (h : d.HasMask m) : m.ndim = d.ndim := by
  induction h with
  | flat _ _ => rfl
  | nested _ _ _ ih => rw [ndim, ndim, ih]
  | tensor _ _ ih => exact ih

theorem itemsRelated_eq (h : d.HasMask m) : m.ItemsRelated E = d.ItemsRelated E := by
  induction h with
  | flat _ _ => rfl
  | nested _ _ _ ih =>
    funext v w
    rw [ItemsRelated, ItemsRelated, ih]
  | tensor _ _ _ => rfl

theorem related_iff (h : d.HasMask m) : m.Related E v w ↔ d.Related E v w := by
  have hitems := h.itemsRelated_eq (E := E)
  cases h with
  | flat _ _ => exact Iff.rfl
  | nested _ _ _ => rw [related_plain_iff rfl, related_plain_iff rfl, hitems]
  | tensor _ hb => rw [Related, Related, hb.itemsRelated_eq]

end Descriptor.HasMask

theorem Extent.HasMask.eq_of_convertedLength {e e' : Extent} (h : e.HasMask e') {len n : Nat}
    (hlen : e.Admits len) (hn : TypeTable.convertedLength e' len = .ok n) : n = len := by
  unfold TypeTable.convertedLength at hn
  rcases h with rfl | ⟨rfl, _⟩
  · cases e' with
    | dynamic =>
      cases hn
      rfl
    | fixed k =>
      cases hlen
      simp only [true_or, if_true] at hn
      cases hn
      rfl
  · cases hn
    rfl

namespace TypeTable

variable {t : TypeTable} {d m source target : Descriptor} {site : Site} {a b : Object}

theorem positionwise_of_convertItems (hs : source.info.access = .stock)
    (ha : source.Holds a.payload) (hd : target.info.access = .stock)
    (hp : target.isTensor = false) {convert : Nat → Value → Dispatched Value}
    {R : Value → Value → Prop} (hlen : b.length = a.length)
    (hR : ∀ i u v w, source.HasItem u → convert i u = .ok v → target.form.admit? v = some w → R u w)
    (h : t.convertItems source a target site convert = .ok b) :
    (Value.array a).Positionwise R (.array b) := by
  obtain ⟨_, hitems⟩ := items_of_convertItems hs ha hd hp h
  have hla : (Value.array a).length? = some b.length := congrArg some hlen.symm
  refine ⟨⟨b.length, hla, rfl⟩, fun i u w hu hw => ?_⟩
  obtain ⟨k, hk, hread⟩ := Value.exists_position hla hu
  obtain ⟨u', v, w', hu', hv, hw', hget⟩ := hitems k hk
  rw [hread _ hla, hu'] at hu
  rw [hread _ rfl, Value.element?_of_get? hget] at hw
  cases hu
  cases hw
  exact hR k _ v _ (Descriptor.hasItem_of_holds ha hu') hv hw'

theorem sameTruth_self {v : Value} (hv : d.IsInstance v) : d.Related Scalar.SameTruth v v :=
  Descriptor.related_of_contents (fun _ _ => rfl) hv rfl

/-- A mask and its conversion to the mask type of its own type select alike. -/
theorem sameTruth_of_convertTo (ht : t.Regular) (hmask : d.HasMask m) (hd : t.Registered d)
    (hm : t.Registered m) (hv : d.IsInstance (.array a))
    (h : t.convertTo site (.array a) m = .ok b) :
    d.Related Scalar.SameTruth (.array a) (.array b) := by
  induction hmask generalizing site a b with
  | @flat info info' kind extent extent' hkey he =>
    rcases convertTo_array_cases h with ⟨_, rfl⟩ | ⟨hne, _⟩
    · exact sameTruth_self hv
    have hfind := descriptor_of_type_eq hd hv.type_eq
    have haccess := ht.access_of_registered hd
    have haccess' := ht.access_of_registered hm
    have hitems := (convertTo_flat_cases hne hfind h).2.2
    have hlen := he.eq_of_convertedLength hv.admits
      (items_of_convertItems haccess hv.holds haccess' rfl hitems).1
    refine positionwise_of_convertItems haccess hv.holds haccess' rfl hlen
      (fun i u v w hu hconv hw => ?_) hitems
    obtain ⟨x, rfl, _⟩ := hu
    cases hconv
    cases hw
    exact ⟨x, _, rfl, rfl, rfl⟩
  | @nested info info' element element' extent extent' hkey he hi ih =>
    rcases convertTo_array_cases h with ⟨_, rfl⟩ | ⟨hne, _⟩
    · exact sameTruth_self hv
    have hfind := descriptor_of_type_eq hd hv.type_eq
    have haccess := ht.access_of_registered hd
    have haccess' := ht.access_of_registered hm
    obtain ⟨_, ⟨_, hitems⟩ | ⟨hlt, _⟩⟩ := convertTo_nested_cases hne hfind h
    · have hlen := he.eq_of_convertedLength hv.admits
        (items_of_convertItems haccess hv.holds haccess' rfl hitems).1
      refine positionwise_of_convertItems haccess hv.holds haccess' rfl hlen
        (fun i u v w hu hconv hw => ?_) hitems
      obtain ⟨o, ho, rfl⟩ := map_eq_ok_iff.mp hconv
      cases hw
      obtain ⟨e, rfl, he⟩ := hu
      exact (Descriptor.itemsRelated_nested_iff (ht.component_isTensor hd rfl)).mpr
        (ih (ht.registered_component hd rfl) (ht.registered_component hm rfl) ⟨e, rfl, he⟩ ho)
    · rw [Descriptor.ndim, hi.ndim_eq] at hlt
      exact absurd hlt (Nat.lt_irrefl _)
  | @tensor info info' backing backing' hkey hb ih =>
    rcases convertTo_array_cases h with ⟨_, rfl⟩ | ⟨hne, _⟩
    · exact sameTruth_self hv
    rcases convertTo_tensor_cases hne (descriptor_of_type_eq hd hv.type_eq) h with
      ⟨flat, shape, flat', _, hp, hflat, rfl⟩ | ⟨_, hplain, _⟩
    · have hparts : (Value.array a).tensor? = some (flat, shape) := by
        rw [Value.tensor?, Value.object?, Option.bind_some, hp]
        rfl
      have hrelated := (Descriptor.related_plain_iff (ht.component_isTensor hd rfl)).mp <|
        ih (ht.registered_component hd rfl) (ht.registered_component hm rfl)
          (isInstance_of_tensor? hv hparts).1 hflat
      refine ⟨⟨shape, by rw [Value.shape?, hparts]; rfl, rfl⟩, fun index u u' hu hu' => ?_⟩
      unfold Value.entry? at hu
      rw [hparts] at hu
      exact hrelated.element _ u u' (Value.element?_of_get? hu) (Value.element?_of_get? hu')
    · cases hplain

end TypeTable

/-! ## Unification of a selection -/

namespace Registry

variable {r : Registry} {c : Call} (site : Site) {mask t f : Value} {d m : Descriptor}
  (hu : r.unifier = .promote) (hmode : c.mode = .select) (ht : r.types.WellFormed t)
  (hf : r.types.WellFormed f) (htarget : r.types.target [t, f] = .ok d)

def promotedValues (r : Registry) (site : Site) (d : Descriptor) (values : List Value) :
    Dispatched Unit × List Value :=
  replaceInOrder (fun i => r.types.adapt ((site.child 1).child i) d.key) 1 values

include hu hmode ht hf htarget

/-- The operands of a selection stay as they are if all of them have one type. Otherwise the
alternatives are promoted first, and then the mask. -/
theorem unified_select (mask : Value) :
    (∀ v ∈ [mask, t, f], v.type? = some d.key) ∧ r.unified c site [mask, t, f] = .ok [mask, t, f] ∨
      r.unified c site [mask, t, f] =
        match r.promotedValues site d [t, f] with
        | (.error e, _) => .error (e.within (c.frame (r.types.typeName t)))
        | (.ok _, values) =>
          match r.types.adapt ((site.child 1).child 0) d.maskType mask with
          | .error e => .error (e.within (c.frame (r.types.typeName t)))
          | .ok mask' => .ok (mask' :: values) := by
  have hrep : c.representative [mask, t, f] = t := by
    rw [Call.representative, hmode]
    rfl
  unfold unified promotedValues
  cases hany : ([mask, t, f].zip [mask, t, f].tail).any fun p => p.1.tag ≠ p.2.tag with
  | false =>
    obtain ⟨w, hw, htype⟩ := TypeTable.exists_type?_of_target (by simp [ht, hf]) htarget
    exact .inl ⟨fun v hv =>
      type?_of_tag_eq (tag_eq_of_any_eq_false hany hv (List.mem_cons_of_mem _ hw)) htype, rfl⟩
  | true =>
    right
    simp only [if_true, hu, hmode, Unifier.promote_select, htarget, hrep]
    rcases replaceInOrder (fun i => r.types.adapt ((site.child 1).child i) d.key) 1 [t, f] with
      ⟨e | ⟨⟩, values⟩
    · rfl
    · cases r.types.adapt ((site.child 1).child 0) d.maskType mask <;> rfl

theorem unified_masked (hmask : mask.type? = some d.maskType) :
    r.unified c site [mask, t, f] =
      match r.promotedValues site d [t, f] with
      | (.error e, _) => .error (e.within (c.frame (r.types.typeName t)))
      | (.ok _, values) => .ok (mask :: values) := by
  rcases unified_select site hu hmode ht hf htarget mask with ⟨htypes, huni⟩ | huni
  · have hvalues : r.promotedValues site d [t, f] = (.ok (), [t, f]) :=
      TypeTable.replaceInOrder_of_type? (fun v hv => htypes v (List.mem_cons_of_mem _ hv)) 1
    rw [huni, hvalues]
  · rw [huni, TypeTable.adapt_of_type? hmask]

omit hu hmode htarget in
theorem isInstance_of_promotedValues (hreg : r.types.Regular) (hl : r.types.Lawful)
    (hd : r.types.Registered d) {values : List Value}
    (h : r.promotedValues site d [t, f] = (.ok (), values)) :
    ∃ t' f', values = [t', f'] ∧ d.IsInstance t' ∧ d.IsInstance f' := by
  obtain ⟨t', f', rfl, ⟨i, hi⟩, ⟨j, hj⟩⟩ :=
    exists_pair_of_forall₂ (TypeTable.forall₂_of_replaceInOrder h)
  exact ⟨t', f', rfl, TypeTable.isInstance_of_adapt hreg hl hd ht hi,
    TypeTable.isInstance_of_adapt hreg hl hd hf hj⟩

/-- A selection is unified alike with a mask and with what the mask is converted to: it fails alike,
or leads to masks that select alike and to the same alternatives. -/
theorem unified_converted (hreg : r.types.Regular) (hl : r.types.Lawful)
    (hd : r.types.Registered d) (hwell : r.types.WellFormed mask) {s : Site} {mask' : Value}
    (hconv : r.types.convert s mask d.maskType = .ok mask') :
    (∃ e, r.unified c site [mask, t, f] = .error e ∧ r.unified c site [mask', t, f] = .error e) ∨
      ∃ u t' f', r.unified c site [mask, t, f] = .ok [u, t', f'] ∧
        r.unified c site [mask', t, f] = .ok [mask', t', f'] ∧
        Fitting r.types .select d [u, t', f'] ∧ Fitting r.types .select d [mask', t', f'] ∧
        Selects d [u, t', f'] [mask', t', f'] := by
  obtain ⟨m, hm, hmask⟩ := hl.hasMask d (TypeTable.Regular.mem_of_registered hd)
  have hkey := hmask.key_eq
  rw [← hkey, TypeTable.convert_eq hm] at hconv
  obtain ⟨b, hb, rfl⟩ := map_eq_ok_iff.mp hconv
  have hib := TypeTable.isInstance_of_convertTo hreg hm
    (hl.convertible m (TypeTable.Regular.mem_of_registered hm)) hwell hb
  have hsame : ∀ {v}, d.IsInstance v → d.Related Eq v v := fun hv =>
    Descriptor.related_of_contents (fun _ _ => rfl) hv rfl
  have hmasked := unified_masked site hu hmode ht hf htarget (hkey ▸ hib.type?)
  rcases unified_select site hu hmode ht hf htarget mask with ⟨htypes, huni⟩ | huni
  · -- All operands have the type `d`, which the call leaves as it is: the mask is not converted.
    simp only [List.forall_mem_cons] at htypes
    obtain ⟨htype, htypeT, htypeF, _⟩ := htypes
    have hi := TypeTable.isInstance_of_type? hd hwell htype
    have hti := TypeTable.isInstance_of_type? hd ht htypeT
    have hfi := TypeTable.isInstance_of_type? hd hf htypeF
    have hvalues : r.promotedValues site d [t, f] = (.ok (), [t, f]) :=
      TypeTable.replaceInOrder_of_type? (by simp [htypeT, htypeF]) 1
    rw [hvalues] at hmasked
    obtain ⟨a, rfl, ha⟩ := hi
    have hi : d.IsInstance (.array a) := ⟨a, rfl, ha⟩
    exact .inr ⟨_, t, f, huni, hmasked, .of_masked hd (.inl rfl) hi hti hfi,
      .of_masked hm (.inr hmask) hib hti hfi,
      ⟨TypeTable.sameTruth_of_convertTo hreg hmask hd hm hi hb, hsame hti, hsame hfi⟩⟩
  · rcases hvalues : r.promotedValues site d [t, f] with ⟨e | ⟨⟩, values⟩
    · rw [hvalues] at huni hmasked
      exact .inl ⟨_, huni, hmasked⟩
    · -- The mask is converted at another site, to an array of the same contents.
      obtain ⟨t', f', rfl, hti, hfi⟩ := isInstance_of_promotedValues site ht hf hreg hl hd hvalues
      have hcontents := TypeTable.adapt_contents_eq hreg hm mask ((site.child 1).child 0) s
      rw [TypeTable.convert_eq hm, hb] at hcontents
      obtain ⟨u, hadapt, hu⟩ := map_eq_ok_iff.mp hcontents
      have hui := TypeTable.isInstance_of_adapt hreg hl hm hwell hadapt
      rw [hvalues, ← hkey, hadapt] at huni
      rw [hvalues] at hmasked
      refine .inr ⟨u, t', f', huni, hmasked, .of_masked hm (.inr hmask) hui hti hfi,
        .of_masked hm (.inr hmask) hib hti hfi, ⟨hmask.related_iff.mp ?_, hsame hti, hsame hfi⟩⟩
      exact Descriptor.related_of_contents (fun _ _ => rfl) hui hu.symm

end Registry

/-! ## The whole dispatch -/

theorem TypeTable.evaluatesAt_select {t : TypeTable} (hreg : t.Regular) (hl : t.Lawful)
    {d : Descriptor} (hd : t.Registered d) : d.EvaluatesAt .select := by
  induction d with
  | flat info kind extent =>
    intro kernel hop
    exact absurd rfl (hl.kernelsFit _ (Regular.mem_of_registered hd) _ _ hop).1
  | nested info element extent ih => exact ih (hreg.registered_component hd rfl)
  | tensor info backing ih => exact ih (hreg.registered_component hd rfl)

namespace Registry

variable {r : Registry} {c : Call} {site : Site} {mask mask' t f : Value} {d : Descriptor}

theorem apply_corresponds_of_convert (hreg : r.types.Regular) (hl : r.types.Lawful)
    (hu : r.unifier = .promote) (hc : c.Proper) (hmode : c.mode = .select) (hop : c.op = .select)
    (hmask : r.types.WellFormed mask) (ht : r.types.WellFormed t) (hf : r.types.WellFormed f)
    (htarget : r.types.target [t, f] = .ok d) {s : Site}
    (hconv : r.types.convert s mask d.maskType = .ok mask') (held held' : List Value) :
    Dispatched.Corresponds (r.apply c held site [mask, t, f]).result
      (r.apply c held' site [mask', t, f]).result := by
  have hwell : ∀ v ∈ [t, f], r.types.WellFormed v := by simp [ht, hf]
  have hd := TypeTable.registered_of_target hwell htarget
  obtain ⟨a, ha⟩ := TypeTable.exists_array_of_target hwell htarget
  have harity : ∀ u, [u, t, f].length = c.op.arity := fun u => by rw [hop]; rfl
  have hmem : ∀ u, .array a ∈ [u, t, f] := fun u => List.mem_cons_of_mem _ ha
  rcases unified_converted site hu hmode ht hf htarget hreg hl hd hmask hconv with
    ⟨e, h, h'⟩ | ⟨u, t', f', h, h', hfit, hfit', hrel⟩
  · rw [apply_of_unified_eq_error (hc.takes (harity _)) (hmem _) h,
      apply_of_unified_eq_error (hc.takes (harity _)) (hmem _) h']
    exact Dispatched.corresponds_self _
  · refine apply_corresponds_of_unified hreg hl hu (bisimulation_selects hop) hc (by simp [hmode])
      (harity _) (harity _) (hmem _) (hmem _) h h' rfl rfl hd ?_ (hmode ▸ hfit) (hmode ▸ hfit')
      hrel held held'
    exact hop ▸ TypeTable.evaluatesAt_select hreg hl hd

end Registry

/-- Normalising the mask does not change a selection. In the stock registry, let alternatives of
which one is an array be promoted to some type. Wherever a mask can be converted to the mask type
of that type, a selection by the mask and a selection by what it is converted to return the same
value, or fail with errors of one kind from the same frames. -/
theorem apply_select_normalised {mask t f : Value} (hmask : Stock.registry.types.WellFormed mask)
    (ht : Stock.registry.types.WellFormed t) (hf : Stock.registry.types.WellFormed f)
    (harray : ∃ a, .array a ∈ [t, f]) :
    ∃ d, Stock.registry.types.target [t, f] = .ok d ∧
      ∀ s mask', Stock.registry.types.convert s mask d.maskType = .ok mask' →
        ∀ held held' site, Dispatched.Corresponds
          (Stock.registry.apply ⟨.select, .select, .method⟩ held site [mask, t, f]).result
          (Stock.registry.apply ⟨.select, .select, .method⟩ held' site [mask', t, f]).result := by
  have hreg : Stock.registry.types.Regular :=
    ⟨Stock.built_registry.sound, Stock.stockAccess_registry⟩
  have hwell : ∀ v ∈ [t, f], Stock.registry.types.WellFormed v := by simp [ht, hf]
  obtain ⟨d, hd⟩ := TypeTable.exists_highest harray fun a ha =>
    (hwell _ ha).imp fun e he => TypeTable.descriptor_eq_ok_iff.mpr he.1
  have htarget := TypeTable.target_eq_ok_iff.mpr hd
  exact ⟨d, htarget, fun s mask' hconv held held' site =>
    Registry.apply_corresponds_of_convert hreg Stock.lawful_registry rfl .select rfl rfl hmask ht
      hf htarget hconv held held'⟩

/-- Integers select among integers. They have one type, so that the call leaves the mask as it is
and judges each integer by whether it is zero. -/
theorem apply_select_normalised_integers :
    let mask := Stock.integerArray ⟨[0]⟩ [2, 0]
    let t := Stock.integerArray ⟨[1]⟩ [10, 20]
    let f := Stock.integerArray ⟨[2]⟩ [30, 40]
    let mask' : Value := .array ⟨⟨[3]⟩, Stock.boolX, .flat ⟨.bool, [true, false]⟩⟩
    let c : Call := ⟨.select, .select, .method⟩
    Stock.registry.types.convert ⟨[3]⟩ mask Stock.boolX = .ok mask' ∧
      (Stock.registry.apply c [] ⟨[4]⟩ [mask, t, f]).result =
        .ok (.value (Stock.integerArray ⟨[4]⟩ [10, 40])) ∧
      Dispatched.Corresponds (Stock.registry.apply c [] ⟨[4]⟩ [mask, t, f]).result
        (Stock.registry.apply c [] ⟨[4]⟩ [mask', t, f]).result := by
  intro mask t f mask' c
  have hwell : ∀ site xs, Stock.registry.types.WellFormed (Stock.integerArray site xs) :=
    fun site xs => ⟨_, rfl, Stock.isInstance_integerArray site xs⟩
  have hconv : Stock.registry.types.convert ⟨[3]⟩ mask Stock.boolX = .ok mask' := rfl
  obtain ⟨d, htarget, h⟩ := @apply_select_normalised mask t f (hwell _ _) (hwell _ _) (hwell _ _)
    ⟨_, .head _⟩
  have hd : .ok (.flat Stock.integersInfo (.integer .int32) .dynamic) = Except.ok d := htarget
  cases hd
  exact ⟨hconv, rfl, h _ _ hconv [] [] ⟨[4]⟩⟩

end ArrayDispatch
