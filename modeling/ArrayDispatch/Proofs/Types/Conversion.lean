import ArrayDispatch.Convert
import ArrayDispatch.Proofs.Types.Registration

/-!
Conversions of values. What is built for a plain type, or for a tensor over a flat one, is an
instance of the type, and stands at the site that it was made at.
-/

namespace ArrayDispatch

section Store

variable {t : TypeTable} {d : Descriptor} {p q : Payload} {i : Nat} {v : Value}

theorem TypeTable.store_eq (hd : d.info.access = .stock) :
    t.store d p i v =
      match p.set i v with
      | .ok q => .ok q
      | .error v => fail (.itemAssign i (t.typeName v)) := by
  have hset : d.setItem p i v = p.set i v := by
    unfold Descriptor.setItem
    rw [hd]
    rfl
  unfold store
  rw [hset]
  rfl

theorem TypeTable.store_of_stock (hd : d.info.access = .stock) :
    t.store d p i v = .ok q ↔ p.set i v = .ok q := by
  rw [store_eq hd]
  cases p.set i v <;> simp [fail]

end Store

/-- Values become instances of the type by conversion: it is plain, or a tensor over a flat type,
for which shapes are kept. -/
def Descriptor.Convertible : Descriptor → Prop
  | .tensor _ backing => ∃ info kind extent, backing = .flat info kind extent
  | _ => True

theorem Descriptor.convertible_of_plain {d : Descriptor} (hp : d.isTensor = false) :
    d.Convertible := by
  cases d with
  | tensor info backing => cases hp
  | _ => trivial

namespace TypeTable

variable {t : TypeTable} {d : Descriptor} {site : Site}

/-! ## Building -/

theorem filled_of_foldlM (hd : d.info.access = .stock) {item : Nat → Dispatched Value} {n : Nat}
    {p q : Payload}
    (h : (List.range n).foldlM (fun p i => do t.store d p i (← item i)) p = .ok q) :
    q.form = p.form ∧ q.length = p.length ∧
      ∀ i, i < n → ∃ v w, item i = .ok v ∧ p.form.admit? v = some w ∧ q.get? i = some w := by
  induction n generalizing q with
  | zero =>
    cases h
    exact ⟨rfl, rfl, fun i hi => by omega⟩
  | succ n ih =>
    rw [List.range_succ, List.foldlM_append] at h
    obtain ⟨s, hs, h⟩ := bind_eq_ok_iff.mp h
    obtain ⟨hform, hlen, hitems⟩ := ih hs
    rw [List.foldlM_cons] at h
    obtain ⟨q', h, hq⟩ := bind_eq_ok_iff.mp h
    cases hq
    obtain ⟨v, hv, hset⟩ := bind_eq_ok_iff.mp h
    obtain ⟨w, hw, hwr⟩ := Payload.written_of_set_eq_ok ((store_of_stock hd).mp hset)
    rw [hform] at hw
    refine ⟨hwr.form_eq.trans hform, hwr.length_eq.trans hlen, fun i hi => ?_⟩
    rcases Nat.lt_succ_iff_lt_or_eq.mp hi with hlt | rfl
    · obtain ⟨v', w', hv', hw', hget⟩ := hitems i hlt
      exact ⟨v', w', hv', hw', (hwr.get?_ne i (by omega)).trans hget⟩
    · exact ⟨v, w, hv, hw, hwr.get?_self⟩

theorem isInstance_of_build (hd : d.info.access = .stock) (hp : d.isTensor = false) {n : Nat}
    (hn : d.extent.Admits n) {item : Nat → Dispatched Value} {a : Object}
    (hitem : ∀ i v w, item i = .ok v → d.form.admit? v = some w → d.HasItem w)
    (h : t.build d site n item = .ok a) : a.id = site ∧ a.length = n ∧ d.IsInstance (.array a) := by
  obtain ⟨p, hfold, ha⟩ := bind_eq_ok_iff.mp h
  cases ha
  obtain ⟨hform, hlen, hitems⟩ := filled_of_foldlM hd hfold
  rw [d.length_alloc hp] at hlen
  rw [d.form_alloc] at hform hitems
  refine ⟨rfl, hlen, _, rfl, rfl, Descriptor.holds_of_items hp hform (hlen ▸ hn) fun i v hv => ?_⟩
  obtain ⟨u, w, hu, hw, hget⟩ := hitems i (hlen ▸ Payload.lt_length_of_get? hv)
  change p.get? i = some v at hv
  rw [hget, Option.some.injEq] at hv
  exact hv ▸ hitem i u w hu hw

theorem isInstance_of_fill (hd : d.info.access = .stock) (hp : d.isTensor = false) {v : Value}
    {a : Object} (hv : ∀ w, d.form.admit? v = some w → d.HasItem w)
    (h : t.fill d site v = .ok a) :
    a.id = site ∧ a.length = d.extent.fixed?.getD 1 ∧ d.IsInstance (.array a) := by
  refine isInstance_of_build hd hp (Extent.admits_getD _ 1) (fun i u w hu hw => ?_) h
  cases hu
  exact hv w hw

theorem hasItem_flat {info : TypeInfo} {kind : Kind} {extent : Extent} {v w : Value}
    (h : (Descriptor.flat info kind extent).form.admit? v = some w) :
    (Descriptor.flat info kind extent).HasItem w := by
  cases v with
  | scalar s =>
    cases h
    exact ⟨_, rfl, rfl⟩
  | array a => cases h

/-! ## Lifting -/

theorem isInstance_of_lift (ht : t.Regular) (hd : t.Registered d) {s : Scalar} {a : Object}
    (h : t.lift site s d = .ok a) :
    a.id = site ∧ a.length = d.extent.fixed?.getD 1 ∧ d.IsInstance (.array a) := by
  have haccess := ht.access_of_registered hd
  induction d generalizing site a with
  | flat info kind extent => exact isInstance_of_fill haccess rfl (fun _ hw => hasItem_flat hw) h
  | nested info element extent ih =>
    have hde := ht.registered_component hd rfl
    obtain ⟨item, hitem, h⟩ := bind_eq_ok_iff.mp h
    obtain ⟨_, _, hi⟩ := ih hde hitem (ht.access_of_registered hde)
    refine isInstance_of_fill haccess rfl (fun w hw => ?_) h
    cases hw
    exact hi
  | tensor info backing ih =>
    have hdb := ht.registered_component hd rfl
    have hext := (ht.placed_of_registered hd).backing rfl backing rfl
    obtain ⟨flat, hflat, h⟩ := bind_eq_ok_iff.mp h
    obtain ⟨_, hlen, hi⟩ := ih hdb hflat (ht.access_of_registered hdb)
    rw [hext] at hlen
    cases h
    exact ⟨rfl, (Payload.length_tensor _ _).trans hlen,
      _, rfl, rfl, Descriptor.isInstance_array.mp hi, hlen, Shape.fits_nil⟩

/-! ## Converting -/

section Convert

variable {source target : Descriptor} {a b : Object}

theorem wellFormed_of_hasItem (ht : t.Regular) (hd : t.Registered d) {v : Value}
    (h : d.HasItem v) : t.WellFormed v := by
  cases d with
  | flat info kind extent =>
    obtain ⟨s, rfl, _⟩ := h
    trivial
  | nested info element extent => exact .of_isInstance (ht.registered_component hd rfl) h
  | tensor info backing => exact h.elim

theorem admits_of_convertedLength {e : Extent} {len n : Nat} (h : convertedLength e len = .ok n) :
    e.Admits n := by
  unfold convertedLength at h
  split at h
  · trivial
  · split at h <;> cases h
    rfl

theorem isInstance_of_convertItems (hs : source.info.access = .stock) (ha : source.Holds a.payload)
    (hd : target.info.access = .stock) (hp : target.isTensor = false)
    {convert : Nat → Value → Dispatched Value}
    (hconv : ∀ i u v w, source.HasItem u → convert i u = .ok v → target.form.admit? v = some w →
      target.HasItem w)
    (h : t.convertItems source a target site convert = .ok b) :
    b.id = site ∧ convertedLength target.extent a.length = .ok b.length ∧
      target.IsInstance (.array b) := by
  have hlen : source.lengthOf a.payload = a.length := Descriptor.lengthOf_of_holds hs ha
  have hitem : ∀ j, source.item? a.payload j = a.payload.get? j := by
    intro j
    unfold Descriptor.item?
    rw [hs]
    rfl
  unfold convertItems at h
  simp only [hlen, hitem] at h
  obtain ⟨n, hn, h⟩ := bind_eq_ok_iff.mp h
  have hn := lift_eq_ok_iff.mp hn
  obtain ⟨hid, hblen, hi⟩ := isInstance_of_build hd hp (admits_of_convertedLength hn)
    (fun i v w hv hw => by
      split at hv
      · exact hconv i _ v w (Descriptor.hasItem_of_holds ha (by assumption)) hv hw
      · cases hv) h
  exact ⟨hid, hblen ▸ hn, hi⟩

theorem isInstance_of_descriptor (ha : t.WellFormed (.array a))
    (h : t.descriptor a.type = .ok d) : t.Registered d ∧ d.IsInstance (.array a) := by
  obtain ⟨d', hd', hi⟩ := ha.exists_isInstance
  have htype := hi.type_eq
  rw [htype, descriptor_eq_ok_iff.mpr hd', Except.ok.injEq] at h
  subst h
  exact ⟨hd', hi⟩

/-- An array that needs no conversion, or one whose type has been found. -/
theorem convertTo_array_cases (h : t.convertTo site (.array a) target = .ok b) :
    (a.type = target.key ∧ b = a) ∨
      a.type ≠ target.key ∧ ∃ source, t.descriptor a.type = .ok source := by
  unfold convertTo at h
  by_cases htype : a.type = target.key
  · simp only [if_pos htype] at h
    cases h
    exact .inl ⟨htype, rfl⟩
  · simp only [if_neg htype] at h
    obtain ⟨source, hs, _⟩ := bind_eq_ok_iff.mp h
    exact .inr ⟨htype, source, lift_eq_ok_iff.mp hs⟩

/-! ### What a conversion consists of -/

section Inversion

variable {info : TypeInfo} {kind : Kind} {extent : Extent} {element backing : Descriptor}

theorem convertTo_of_descriptor_eq_error {cause : Cause} (hne : a.type ≠ target.key)
    (hs : t.descriptor a.type = .error cause) :
    t.convertTo site (.array a) target = fail cause := by
  unfold convertTo
  simp only [if_neg hne, hs]
  rfl

theorem convertTo_flat (hne : a.type ≠ info.key) (hs : t.descriptor a.type = .ok source) :
    t.convertTo site (.array a) (.flat info kind extent) =
      if source.isTensor ∨ source.ndim ≠ 1 then fail (.unification source.name info.name)
      else t.convertItems source a (.flat info kind extent) site fun _ item => pure item := by
  unfold convertTo
  simp only [Descriptor.key, Descriptor.info, if_neg hne, hs]
  rfl

theorem convertTo_nested (hne : a.type ≠ info.key) (hs : t.descriptor a.type = .ok source) :
    t.convertTo site (.array a) (.nested info element extent) =
      if source.isTensor then fail (.unification source.name info.name)
      else if source.ndim = element.ndim + 1 then
        t.convertItems source a (.nested info element extent) site fun i item =>
          (t.convertTo (site.child i) item element).map .array
      else if source.ndim < element.ndim + 1 then do
        let item ← t.convertTo (site.child 0) (.array a) element
        t.fill (.nested info element extent) site (.array item)
      else fail (.unification source.name info.name) := by
  rw [convertTo.eq_def]
  simp only [Descriptor.key, Descriptor.info, if_neg hne, hs]
  rfl

theorem convertTo_tensor (hne : a.type ≠ info.key) (hs : t.descriptor a.type = .ok source) :
    t.convertTo site (.array a) (.tensor info backing) =
      if source.isTensor then
        match a.payload.tensor? with
        | some (flat, shape) => do
          let flat ← t.convertTo (site.child 0) (.array flat) backing
          pure ⟨site, info.key, .tensor flat shape⟩
        | none => fail (.unification source.name info.name)
      else if source.ndim = 1 then do
        let flat ← t.convertTo (site.child 0) (.array a) backing
        pure ⟨site, info.key, .tensor flat [source.lengthOf a.payload]⟩
      else fail (.unification source.name info.name) := by
  rw [convertTo.eq_def]
  simp only [Descriptor.key, Descriptor.info, if_neg hne, hs]
  rfl

theorem convertTo_flat_cases (hne : a.type ≠ info.key) (hs : t.descriptor a.type = .ok source)
    (h : t.convertTo site (.array a) (.flat info kind extent) = .ok b) :
    source.isTensor = false ∧ source.ndim = 1 ∧
      t.convertItems source a (.flat info kind extent) site (fun _ item => pure item) = .ok b := by
  rw [convertTo_flat hne hs] at h
  split at h
  · cases h
  · rename_i hg
    simp only [not_or, Bool.not_eq_true, not_not] at hg
    exact ⟨hg.1, hg.2, h⟩

theorem convertTo_nested_cases (hne : a.type ≠ info.key) (hs : t.descriptor a.type = .ok source)
    (h : t.convertTo site (.array a) (.nested info element extent) = .ok b) :
    source.isTensor = false ∧
      (source.ndim = element.ndim + 1 ∧
          t.convertItems source a (.nested info element extent) site (fun i item =>
            (t.convertTo (site.child i) item element).map .array) = .ok b ∨
        source.ndim < element.ndim + 1 ∧
          ∃ item, t.convertTo (site.child 0) (.array a) element = .ok item ∧
            t.fill (.nested info element extent) site (.array item) = .ok b) := by
  rw [convertTo_nested hne hs] at h
  split at h
  · cases h
  · refine ⟨by simpa using ‹¬source.isTensor = true›, ?_⟩
    split at h
    · exact .inl ⟨by assumption, h⟩
    · split at h
      · exact .inr ⟨by assumption, bind_eq_ok_iff.mp h⟩
      · cases h

theorem convertTo_tensor_cases (hne : a.type ≠ info.key) (hs : t.descriptor a.type = .ok source)
    (h : t.convertTo site (.array a) (.tensor info backing) = .ok b) :
    (∃ flat shape flat', source.isTensor ∧ a.payload = .tensor flat shape ∧
        t.convertTo (site.child 0) (.array flat) backing = .ok flat' ∧
        b = ⟨site, info.key, .tensor flat' shape⟩) ∨
      ∃ flat', source.isTensor = false ∧ source.ndim = 1 ∧
        t.convertTo (site.child 0) (.array a) backing = .ok flat' ∧
        b = ⟨site, info.key, .tensor flat' [source.lengthOf a.payload]⟩ := by
  rw [convertTo_tensor hne hs] at h
  split at h
  · split at h
    · rename_i flat shape htensor
      obtain ⟨flat', hflat, h⟩ := bind_eq_ok_iff.mp h
      cases h
      refine .inl ⟨flat, shape, flat', by assumption, ?_, hflat, rfl⟩
      cases hp : a.payload with
      | flat b =>
        rw [hp] at htensor
        cases htensor
      | nested items =>
        rw [hp] at htensor
        cases htensor
      | tensor b s =>
        rw [hp] at htensor
        cases htensor
        rfl
    · cases h
  · split at h
    · obtain ⟨flat', hflat, h⟩ := bind_eq_ok_iff.mp h
      cases h
      exact .inr ⟨flat', by simpa using ‹¬source.isTensor = true›, by assumption, hflat, rfl⟩
    · cases h

end Inversion

theorem convert_eq (hd : t.Registered d) (site : Site) (v : Value) :
    t.convert site v d.key = (t.convertTo site v d).map .array := by
  rw [convert, descriptor_eq_ok_iff.mpr hd]
  rfl

/-! ### Identities -/

theorem id_type_of_build {n : Nat} {item : Nat → Dispatched Value}
    (h : t.build d site n item = .ok a) : a.id = site ∧ a.type = d.key := by
  obtain ⟨p, _, h⟩ := bind_eq_ok_iff.mp h
  cases h
  exact ⟨rfl, rfl⟩

theorem id_type_of_convertItems {convert : Nat → Value → Dispatched Value}
    (h : t.convertItems source a target site convert = .ok b) :
    b.id = site ∧ b.type = target.key := by
  obtain ⟨n, _, h⟩ := bind_eq_ok_iff.mp h
  exact id_type_of_build h

theorem id_type_of_lift {s : Scalar} (h : t.lift site s d = .ok a) :
    a.id = site ∧ a.type = d.key := by
  cases d with
  | flat info kind extent => exact id_type_of_build h
  | nested info element extent =>
    obtain ⟨item, _, h⟩ := bind_eq_ok_iff.mp h
    exact id_type_of_build h
  | tensor info backing =>
    obtain ⟨flat, _, h⟩ := bind_eq_ok_iff.mp h
    cases h
    exact ⟨rfl, rfl⟩

/-- A conversion hands back its operand, which has the type, or an object made at the site. -/
theorem id_type_of_convertTo {v : Value} (h : t.convertTo site v target = .ok b) :
    (v = .array b ∨ b.id = site) ∧ b.type = target.key := by
  cases v with
  | scalar s =>
    rw [convertTo_scalar] at h
    obtain ⟨hid, htype⟩ := id_type_of_lift h
    exact ⟨.inr hid, htype⟩
  | array a =>
    rcases convertTo_array_cases h with ⟨htype, rfl⟩ | ⟨hne, source, hs⟩
    · exact ⟨.inl rfl, htype⟩
    · have hmade : b.id = site ∧ b.type = target.key := by
        cases target with
        | flat info kind extent =>
          exact id_type_of_convertItems (convertTo_flat_cases hne hs h).2.2
        | nested info element extent =>
          obtain ⟨_, ⟨_, h⟩ | ⟨_, item, _, h⟩⟩ := convertTo_nested_cases hne hs h
          · exact id_type_of_convertItems h
          · exact id_type_of_build h
        | tensor info backing =>
          rcases convertTo_tensor_cases hne hs h with
            ⟨_, _, _, _, _, _, rfl⟩ | ⟨_, _, _, _, rfl⟩ <;>
            exact ⟨rfl, rfl⟩
      exact ⟨.inr hmade.1, hmade.2⟩

/-! ### Instances -/

theorem isInstance_of_convertTo_flat (ht : t.Regular) {info : TypeInfo} {kind : Kind}
    {extent : Extent} (hd : t.Registered (.flat info kind extent)) (ha : t.WellFormed (.array a))
    (h : t.convertTo site (.array a) (.flat info kind extent) = .ok b) :
    (Descriptor.flat info kind extent).IsInstance (.array b) ∧
      (extent = .dynamic → b.length = a.length) := by
  rcases convertTo_array_cases h with ⟨htype, rfl⟩ | ⟨hne, source, hs⟩
  · have hb := (isInstance_of_descriptor ha (htype ▸ descriptor_eq_ok_iff.mpr hd)).2
    exact ⟨hb, fun _ => rfl⟩
  · obtain ⟨hds, hi⟩ := isInstance_of_descriptor ha hs
    obtain ⟨_, hlen, hb⟩ := isInstance_of_convertItems (ht.access_of_registered hds)
      hi.holds (ht.access_of_registered hd) rfl
      (fun _ _ _ _ _ _ hw => hasItem_flat hw) (convertTo_flat_cases hne hs h).2.2
    refine ⟨hb, ?_⟩
    rintro rfl
    exact (Except.ok.inj hlen).symm

theorem isInstance_of_convertTo_tensor (ht : t.Regular) {info flatInfo : TypeInfo} {kind : Kind}
    (hd : t.Registered (.tensor info (.flat flatInfo kind .dynamic)))
    (ha : t.WellFormed (.array a))
    (h : t.convertTo site (.array a) (.tensor info (.flat flatInfo kind .dynamic)) = .ok b) :
    (Descriptor.tensor info (.flat flatInfo kind .dynamic)).IsInstance (.array b) := by
  have hdb := ht.registered_component hd rfl
  rcases convertTo_array_cases h with ⟨htype, rfl⟩ | ⟨hne, source, hs⟩
  · exact (isInstance_of_descriptor ha (htype ▸ descriptor_eq_ok_iff.mpr hd)).2
  · obtain ⟨hds, hi⟩ := isInstance_of_descriptor ha hs
    have hholds := hi.holds
    rcases convertTo_tensor_cases hne hs h with
      ⟨flat, shape, flat', _, hp, hflat, rfl⟩ | ⟨flat', _, _, hflat, rfl⟩
    · rw [hp] at hholds
      obtain ⟨_, _, rfl, hflatInst, hflatLen, hfits⟩ := Descriptor.exists_of_holds_tensor hholds
      have hflatWell := WellFormed.of_isInstance (ht.registered_component hds rfl) hflatInst
      obtain ⟨hb, hlen⟩ := isInstance_of_convertTo_flat ht hdb hflatWell hflat
      exact ⟨_, rfl, rfl, Descriptor.isInstance_array.mp hb, (hlen rfl).trans hflatLen, hfits⟩
    · obtain ⟨hb, hlen⟩ := isInstance_of_convertTo_flat ht hdb ha hflat
      refine ⟨_, rfl, rfl, Descriptor.isInstance_array.mp hb, ?_, Shape.fits_singleton _⟩
      rw [hlen rfl, Descriptor.lengthOf_of_holds (ht.access_of_registered hds) hholds]
      exact (Shape.size_singleton _).symm

/-- A conversion that succeeds gives an instance of the type. -/
theorem isInstance_of_convertTo (ht : t.Regular) (hd : t.Registered target)
    (hc : target.Convertible) {v : Value} (hv : t.WellFormed v)
    (h : t.convertTo site v target = .ok b) : target.IsInstance (.array b) := by
  have haccess := ht.access_of_registered hd
  induction target generalizing site v b with
  | flat info kind extent =>
    cases v with
    | scalar s => exact (isInstance_of_lift ht hd (t.convertTo_scalar site s _ ▸ h)).2.2
    | array a => exact (isInstance_of_convertTo_flat ht hd hv h).1
  | nested info element extent ih =>
    have hde := ht.registered_component hd rfl
    have hce : element.Convertible :=
      Descriptor.convertible_of_plain (ht.component_isTensor hd rfl)
    cases v with
    | scalar s => exact (isInstance_of_lift ht hd (t.convertTo_scalar site s _ ▸ h)).2.2
    | array a =>
      rcases convertTo_array_cases h with ⟨htype, rfl⟩ | ⟨hne, source, hs⟩
      · exact (isInstance_of_descriptor hv (htype ▸ descriptor_eq_ok_iff.mpr hd)).2
      · obtain ⟨hds, hi⟩ := isInstance_of_descriptor hv hs
        obtain ⟨_, ⟨_, h⟩ | ⟨_, item, hitem, h⟩⟩ := convertTo_nested_cases hne hs h
        · refine (isInstance_of_convertItems (ht.access_of_registered hds)
            hi.holds haccess rfl (fun i u w w' hu hw hw' => ?_) h).2.2
          obtain ⟨o, ho, rfl⟩ := map_eq_ok_iff.mp hw
          cases hw'
          exact ih hde hce (wellFormed_of_hasItem ht hds hu) ho (ht.access_of_registered hde)
        · refine (isInstance_of_fill haccess rfl (fun w hw => ?_) h).2.2
          cases hw
          exact ih hde hce hv hitem (ht.access_of_registered hde)
  | tensor info backing ih =>
    obtain ⟨flatInfo, kind, extent, rfl⟩ := hc
    cases v with
    | scalar s => exact (isInstance_of_lift ht hd (t.convertTo_scalar site s _ ▸ h)).2.2
    | array a =>
      obtain rfl : extent = .dynamic := (ht.placed_of_registered hd).backing rfl _ rfl
      exact isInstance_of_convertTo_tensor ht hd hv h

end Convert

end TypeTable

end ArrayDispatch
