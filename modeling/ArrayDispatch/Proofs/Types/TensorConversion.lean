import ArrayDispatch.Proofs.Stock.Registry
import ArrayDispatch.Proofs.Types.Conversion

/-!
Conversions to tensors over any backing type. The shape is taken over from the operand, and the
backing array is converted by itself: one of the same depth keeps its length, a shallower one
becomes a single element.
-/

namespace ArrayDispatch

namespace TypeTable

variable {t : TypeTable} {d source target : Descriptor} {site : Site} {a b : Object}

/-! ## Lengths of converted arrays -/

theorem length_of_build (hd : d.info.access = .stock) (hp : d.isTensor = false) {n : Nat}
    {item : Nat → Dispatched Value} (h : t.build d site n item = .ok a) : a.length = n := by
  obtain ⟨p, hfold, ha⟩ := bind_eq_ok_iff.mp h
  cases ha
  exact (filled_of_foldlM hd hfold).2.1.trans (d.length_alloc hp site n)

theorem length_of_convertItems (hs : source.info.access = .stock) (ha : source.Holds a.payload)
    (hd : target.info.access = .stock) (hp : target.isTensor = false)
    (hext : target.extent = .dynamic) {convert : Nat → Value → Dispatched Value}
    (h : t.convertItems source a target site convert = .ok b) : b.length = a.length := by
  obtain ⟨n, hn, hbuild⟩ := bind_eq_ok_iff.mp h
  have hn := lift_eq_ok_iff.mp hn
  rw [hext] at hn
  rw [length_of_build hd hp hbuild, ← Except.ok.inj hn]
  exact Descriptor.lengthOf_of_holds hs ha

/-- A converted array has the length of its operand, or is a single element if the operand is
shallower. -/
theorem length_of_convertTo (ht : t.Regular) (hd : t.Registered target)
    (hp : target.isTensor = false) (hext : target.extent = .dynamic)
    (ha : t.WellFormed (.array a)) (hs : t.descriptor a.type = .ok source)
    (h : t.convertTo site (.array a) target = .ok b) :
    b.length = if source.ndim = target.ndim then a.length else 1 := by
  have haccess := ht.access_of_registered hd
  obtain ⟨hds, hi⟩ := isInstance_of_descriptor ha hs
  have hsaccess := ht.access_of_registered hds
  by_cases htype : a.type = target.key
  · rw [t.convertTo_of_type_eq site htype] at h
    cases h
    have hst : source = target := by
      rw [htype, descriptor_eq_ok_iff.mpr hd] at hs
      exact (Except.ok.inj hs).symm
    rw [if_pos (by rw [hst])]
  · cases target with
    | flat info kind extent =>
      obtain ⟨_, hdim, h⟩ := convertTo_flat_cases htype hs h
      exact (length_of_convertItems hsaccess hi.holds haccess rfl hext h).trans (if_pos hdim).symm
    | nested info element extent =>
      obtain ⟨_, ⟨hdim, h⟩ | ⟨hdim, item, _, h⟩⟩ := convertTo_nested_cases htype hs h
      · exact (length_of_convertItems hsaccess hi.holds haccess rfl hext h).trans
          (if_pos hdim).symm
      · obtain rfl : extent = .dynamic := hext
        exact (length_of_build haccess rfl h).trans (if_neg (Nat.ne_of_lt hdim)).symm
    | tensor info backing => cases hp

/-! ## Tensors -/

theorem isInstance_of_convertTo_plain (ht : t.Regular) (hd : t.Registered target)
    (hp : target.isTensor = false) {v : Value} (hv : t.WellFormed v)
    (h : t.convertTo site v target = .ok b) : target.IsInstance (.array b) :=
  isInstance_of_convertTo ht hd (Descriptor.convertible_of_plain hp) hv h

/-- The backing array of a converted tensor is an instance of its type, and the shape has as many
places as the operand had elements, which can be counted. -/
theorem tensor_of_convertTo (ht : t.Regular) {info : TypeInfo} {backing : Descriptor}
    (hd : t.Registered (.tensor info backing)) (ha : t.WellFormed (.array a))
    (hs : t.descriptor a.type = .ok source)
    (h : t.convertTo site (.array a) (.tensor info backing) = .ok b) :
    ∃ flat shape, b.type = info.key ∧ b.payload = .tensor flat shape ∧
      backing.IsInstance (.array flat) ∧ Shape.size shape = a.length ∧ Shape.Fits shape ∧
      flat.length = if source.ndim = backing.ndim then a.length else 1 := by
  have hdb := ht.registered_component hd rfl
  have hp := ht.component_isTensor hd rfl
  have hext := (ht.placed_of_registered hd).backing rfl backing rfl
  obtain ⟨hds, hi⟩ := isInstance_of_descriptor ha hs
  by_cases htype : a.type = info.key
  · rw [t.convertTo_of_type_eq site htype] at h
    cases h
    have hst : source = .tensor info backing := by
      rw [htype] at hs
      exact Except.ok.inj (hs.symm.trans (descriptor_eq_ok_iff.mpr hd))
    subst hst
    obtain ⟨id, type, p⟩ := a
    cases p with
    | flat items => exact hi.holds.elim
    | nested items => exact hi.holds.elim
    | tensor flat shape =>
      obtain ⟨hflat, hlen, hfits⟩ := hi.holds
      have hsize : Object.length ⟨id, type, .tensor flat shape⟩ = flat.length :=
        Payload.length_tensor flat shape
      refine ⟨flat, shape, htype, rfl, Descriptor.isInstance_array.mpr hflat,
        by rw [hsize, hlen], hfits, ?_⟩
      rw [hsize]
      exact (if_pos rfl).symm
  · rcases convertTo_tensor_cases htype hs h with
      ⟨flat, shape, flat', _, hpay, hflat, rfl⟩ | ⟨flat', hplain, hdim, hflat, rfl⟩
    · have hholds := hi.holds
      rw [hpay] at hholds
      obtain ⟨sinfo, sbacking, rfl, hflatInst, hlen, hfits⟩ :=
        Descriptor.exists_of_holds_tensor hholds
      have hdsb := ht.registered_component hds rfl
      have hwell := WellFormed.of_isInstance hdsb hflatInst
      have hfound : t.descriptor flat.type = .ok sbacking := by
        rw [hflatInst.type_eq, descriptor_eq_ok_iff]
        exact hdsb
      have hsize : a.length = flat.length := by
        rw [Object.length, hpay, Payload.length_tensor]
      refine ⟨flat', shape, rfl, rfl, isInstance_of_convertTo_plain ht hdb hp hwell hflat,
        by rw [hsize, hlen], hfits, ?_⟩
      have hconv := length_of_convertTo ht hdb hp hext hwell hfound hflat
      rwa [hsize]
    · refine ⟨flat', _, rfl, rfl, isInstance_of_convertTo_plain ht hdb hp ha hflat, ?_,
        Shape.fits_singleton _, length_of_convertTo ht hdb hp hext ha hs hflat⟩
      rw [Descriptor.lengthOf_of_holds (ht.access_of_registered hds) hi.holds]
      exact Shape.size_singleton _

theorem convertTo_of_convert (hd : t.Registered d) {v w : Value}
    (h : t.convert site v d.key = .ok w) :
    ∃ b, t.convertTo site v d = .ok b ∧ w = .array b := by
  rw [convert_eq hd] at h
  obtain ⟨b, hb, hw⟩ := map_eq_ok_iff.mp h
  exact ⟨b, hb, hw.symm⟩

theorem isInstance_convertTo_tensor_iff (ht : t.Regular) {info : TypeInfo} {backing : Descriptor}
    (hd : t.Registered (.tensor info backing)) (ha : t.WellFormed (.array a))
    (hs : t.descriptor a.type = .ok source)
    (h : t.convertTo site (.array a) (.tensor info backing) = .ok b) :
    (Descriptor.tensor info backing).IsInstance (.array b) ↔
      source.ndim = backing.ndim ∨ a.length = 1 := by
  obtain ⟨flat, shape, htype, hpay, hflat, hsize, hfits, hlen⟩ :=
    tensor_of_convertTo ht hd ha hs h
  have hiff : (Descriptor.tensor info backing).IsInstance (.array b) ↔ flat.length = a.length := by
    rw [Descriptor.isInstance_array, hpay, ← hsize]
    exact ⟨fun hb => hb.2.2.1,
      fun hb => ⟨htype, Descriptor.isInstance_array.mp hflat, hb, hfits⟩⟩
  rw [hiff, hlen]
  split <;> simp_all [eq_comm]

end TypeTable

/-! ## Tensors over rows -/

namespace Stock

/-- Rows of integers, and tensors of rows. -/
def rowDeclarations : List TypeDecl :=
  [.nested "Rows" int32X .dynamic, .tensor "RowTensors" ⟨14⟩]

def rowRegistry : Registry := (registerAll registry rowDeclarations).toOption.getD registry

theorem registerAll_rows : registerAll registry rowDeclarations = .ok rowRegistry := rfl

theorem built_rowRegistry : rowRegistry.Built := built_registerAll built_registry registerAll_rows

theorem stockAccess_rowRegistry : rowRegistry.types.StockAccess := by
  refine stockAccess_registerAll stockAccess_registry (fun d hd => ?_) registerAll_rows
  simp only [rowDeclarations, List.mem_cons, List.not_mem_nil, or_false] at hd
  rcases hd with rfl | rfl <;> rfl

def rows : Descriptor :=
  .nested ⟨"Rows", ⟨14⟩, none, fun _ => .generic, .none, .stock⟩
    (.flat integersInfo (.integer .int32) .dynamic) .dynamic

def rowTensors : Descriptor :=
  .tensor ⟨"RowTensors", ⟨15⟩, none, fun _ => .generic, .none, .stock⟩ rows

theorem registered_rowTensors : rowRegistry.types.Registered rowTensors := rfl

theorem wellFormed_integerArray (site : Site) (xs : List (IntType.Word .int32)) :
    rowRegistry.types.WellFormed (integerArray site xs) :=
  ⟨_, rfl, isInstance_integerArray site xs⟩

def rowTensor (site : Site) (row : Value) (shape : List Nat) : Value :=
  .array ⟨site, rowTensors.key, .tensor ⟨site.child 0, rows.key, .nested [row]⟩ shape⟩

end Stock

/-! ## Conversions in a registry -/

/-- What a conversion returns is an instance of the type it was asked for, except for a tensor whose
backing array is nested deeper than the operand: that one has a single element, while the shape has
a place for each element of the operand. -/
theorem convert_isInstance_iff {r : Registry} (hr : r.Built) (hstock : r.types.StockAccess)
    {site : Site} {v w : Value} {d : Descriptor} (hv : r.types.WellFormed v)
    (hd : r.types.Registered d) (h : r.types.convert site v d.key = .ok w) :
    d.IsInstance w ↔
      (d.isTensor = true → ∀ a source, v = .array a → r.types.descriptor? a.type = some source →
        source.ndim = d.ndim ∨ a.length = 1) := by
  have ht : r.types.Regular := ⟨hr.sound, hstock⟩
  obtain ⟨b, hb, rfl⟩ := TypeTable.convertTo_of_convert hd h
  by_cases hp : d.isTensor = true
  · cases d with
    | flat info kind extent => cases hp
    | nested info element extent => cases hp
    | tensor info backing =>
      cases v with
      | scalar s =>
        have hi := (TypeTable.isInstance_of_lift ht hd (r.types.convertTo_scalar site s _ ▸ hb)).2.2
        simp [hi]
      | array a =>
        obtain ⟨source, hs, hi⟩ := hv
        rw [TypeTable.isInstance_convertTo_tensor_iff ht hd ⟨source, hs, hi⟩
          (TypeTable.descriptor_eq_ok_iff.mpr hs) hb]
        constructor
        · rintro hc - a' source' ⟨⟩ hs'
          rw [hs] at hs'
          cases hs'
          exact hc
        · intro hc
          exact hc rfl a source rfl hs
  · have hi := TypeTable.isInstance_of_convertTo_plain ht hd (by simpa using hp) hv hb
    simp [hi, hp]

/-- A single integer becomes a tensor of one row, an instance of its type. -/
theorem convert_isInstance_iff_single :
    Stock.rowRegistry.types.convert ⟨[1]⟩ (Stock.integerArray ⟨[0]⟩ [7]) ⟨15⟩ =
        .ok (Stock.rowTensor ⟨[1]⟩ (Stock.integerArray ⟨[0]⟩ [7]) [1]) ∧
      Stock.rowTensors.IsInstance (Stock.rowTensor ⟨[1]⟩ (Stock.integerArray ⟨[0]⟩ [7]) [1]) := by
  have hconvert : Stock.rowRegistry.types.convert ⟨[1]⟩ (Stock.integerArray ⟨[0]⟩ [7]) ⟨15⟩ =
      .ok (Stock.rowTensor ⟨[1]⟩ (Stock.integerArray ⟨[0]⟩ [7]) [1]) := rfl
  refine ⟨hconvert, (convert_isInstance_iff Stock.built_rowRegistry Stock.stockAccess_rowRegistry
    (Stock.wellFormed_integerArray ⟨[0]⟩ [7]) Stock.registered_rowTensors hconvert).mpr ?_⟩
  intro _ a source ha _
  cases ha
  exact .inr rfl

/-- Two integers become a tensor of one row with a shape of two places. -/
theorem convert_rowTensors_two :
    Stock.rowRegistry.Built ∧ Stock.rowRegistry.types.StockAccess ∧
      Stock.rowRegistry.types.WellFormed (Stock.integerArray ⟨[0]⟩ [1, 2]) ∧
      Stock.rowRegistry.types.convert ⟨[1]⟩ (Stock.integerArray ⟨[0]⟩ [1, 2]) ⟨15⟩ =
        .ok (Stock.rowTensor ⟨[1]⟩ (Stock.integerArray ⟨[0]⟩ [1, 2]) [2]) ∧
      ¬ Stock.rowTensors.IsInstance
        (Stock.rowTensor ⟨[1]⟩ (Stock.integerArray ⟨[0]⟩ [1, 2]) [2]) := by
  refine ⟨Stock.built_rowRegistry, Stock.stockAccess_rowRegistry,
    Stock.wellFormed_integerArray _ _, rfl, fun h => ?_⟩
  have hlen : (1 : Nat) = 2 := h.holds.2.1
  cases hlen

end ArrayDispatch
