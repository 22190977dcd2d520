import ArrayDispatch.Proofs.Dispatch.Call
import ArrayDispatch.Proofs.Types.Lawful

/-!
Types with other tables of operations. The tables are read when a call on plain arrays is
dispatched, and nowhere else: conversions, unification and the instances of a type do not depend on
them.
-/

namespace ArrayDispatch

variable (g : TypeInfo → Op → OpEntry)

/-- What a type declares, with the table that `g` gives for it. -/
def TypeInfo.mapOps (info : TypeInfo) : TypeInfo := { info with ops := g info }

section Info

variable (info : TypeInfo)

@[simp] theorem TypeInfo.name_mapOps : (info.mapOps g).name = info.name := rfl

@[simp] theorem TypeInfo.key_mapOps : (info.mapOps g).key = info.key := rfl

@[simp] theorem TypeInfo.mask_mapOps : (info.mapOps g).mask = info.mask := rfl

@[simp] theorem TypeInfo.ops_mapOps : (info.mapOps g).ops = g info := rfl

@[simp] theorem TypeInfo.flags_mapOps : (info.mapOps g).flags = info.flags := rfl

@[simp] theorem TypeInfo.access_mapOps : (info.mapOps g).access = info.access := rfl

end Info

namespace Descriptor

/-- The type with the tables that `g` gives for it and for the types inside it. -/
def mapOps : Descriptor → Descriptor
  | flat info kind extent => flat (info.mapOps g) kind extent
  | nested info element extent => nested (info.mapOps g) element.mapOps extent
  | tensor info backing => tensor (info.mapOps g) backing.mapOps

section Laws

variable (d e : Descriptor)

@[simp] theorem info_mapOps : (d.mapOps g).info = d.info.mapOps g := by
  cases d <;> rfl

@[simp] theorem key_mapOps : (d.mapOps g).key = d.key := by
  simp [key]

@[simp] theorem name_mapOps : (d.mapOps g).name = d.name := by
  simp [name]

@[simp] theorem maskType_mapOps : (d.mapOps g).maskType = d.maskType := by
  simp [maskType]

@[simp] theorem op_mapOps (op : Op) : (d.mapOps g).op op = g d.info op := by
  simp [Descriptor.op]

@[simp] theorem extent_mapOps : (d.mapOps g).extent = d.extent := by
  cases d <;> rfl

@[simp] theorem isTensor_mapOps : (d.mapOps g).isTensor = d.isTensor := by
  cases d <;> rfl

@[simp] theorem ndim_mapOps : (d.mapOps g).ndim = d.ndim := by
  induction d with
  | flat info kind extent => rfl
  | nested info element extent ih => simp [mapOps, ndim, ih]
  | tensor info backing ih => simp [mapOps, ndim, ih]

@[simp] theorem leafKind_mapOps : (d.mapOps g).leafKind = d.leafKind := by
  induction d with
  | flat info kind extent => rfl
  | nested info element extent ih => simp [mapOps, leafKind, ih]
  | tensor info backing ih => simp [mapOps, leafKind, ih]

@[simp] theorem outranks_mapOps : (d.mapOps g).outranks (e.mapOps g) = d.outranks e := by
  simp [outranks]

@[simp] theorem item?_mapOps : (d.mapOps g).item? = d.item? := by
  funext p i
  simp [item?]

@[simp] theorem setItem_mapOps : (d.mapOps g).setItem = d.setItem := by
  funext p i v
  simp [setItem]

@[simp] theorem lengthOf_mapOps : (d.mapOps g).lengthOf = d.lengthOf := by
  funext p
  simp [lengthOf]

@[simp] theorem tensorParts_mapOps : (d.mapOps g).tensorParts = d.tensorParts := by
  funext a
  simp [tensorParts]

@[simp] theorem alloc_mapOps (site : Site) (n : Nat) :
    (d.mapOps g).alloc site n = d.alloc site n := by
  induction d generalizing site with
  | flat info kind extent => rfl
  | nested info element extent ih => simp [mapOps, alloc]
  | tensor info backing ih => simp [mapOps, alloc, ih]

@[simp] theorem component?_mapOps : (d.mapOps g).component? = d.component?.map (mapOps g) := by
  cases d <;> rfl

@[simp] theorem holds_mapOps (p : Payload) : (d.mapOps g).Holds p ↔ d.Holds p := by
  induction d generalizing p with
  | flat info kind extent => cases p <;> simp [mapOps, Holds]
  | nested info element extent ih => cases p <;> simp [mapOps, Holds, ih]
  | tensor info backing ih => cases p <;> simp [mapOps, Holds, ih]

@[simp] theorem isInstance_mapOps (v : Value) : (d.mapOps g).IsInstance v ↔ d.IsInstance v := by
  simp [IsInstance]

end Laws

end Descriptor

@[simp] theorem Call.resultType_mapOps (c : Call) (d : Descriptor) :
    c.resultType (d.mapOps g) = c.resultType d := by
  simp [resultType]

@[simp] theorem Call.isUnordered_mapOps (c : Call) (d : Descriptor) :
    c.isUnordered (d.mapOps g) = c.isUnordered d := by
  simp [isUnordered]

namespace TypeTable

/-- The table with the tables of operations that `g` gives. -/
def mapOps (t : TypeTable) : TypeTable := ⟨t.types.map (Descriptor.mapOps g)⟩

section Laws

variable (t : TypeTable)

@[simp] theorem descriptor?_mapOps (key : TypeKey) :
    (t.mapOps g).descriptor? key = (t.descriptor? key).map (Descriptor.mapOps g) := by
  simp [descriptor?, mapOps]

@[simp] theorem descriptor_mapOps (key : TypeKey) :
    (t.mapOps g).descriptor key = (t.descriptor key).map (Descriptor.mapOps g) := by
  unfold descriptor
  rw [descriptor?_mapOps]
  cases t.descriptor? key <;> rfl

@[simp] theorem typeName_mapOps : (t.mapOps g).typeName = t.typeName := by
  funext v
  cases v with
  | scalar s => rfl
  | array a =>
    simp only [typeName, descriptor?_mapOps]
    cases t.descriptor? a.type <;> simp

@[simp] theorem depth_mapOps : (t.mapOps g).depth = t.depth := by
  simp [depth, mapOps, Function.comp_def]

/-! ### Conversions -/

@[simp] theorem store_mapOps (d : Descriptor) : (t.mapOps g).store (d.mapOps g) = t.store d := by
  funext p i v
  simp [store]

@[simp] theorem build_mapOps (d : Descriptor) : (t.mapOps g).build (d.mapOps g) = t.build d := by
  funext site n item
  simp [build]

@[simp] theorem fill_mapOps (d : Descriptor) : (t.mapOps g).fill (d.mapOps g) = t.fill d := by
  funext site v
  simp [fill]

@[simp] theorem lift_mapOps (d : Descriptor) (site : Site) (s : Scalar) :
    (t.mapOps g).lift site s (d.mapOps g) = t.lift site s d := by
  induction d generalizing site with
  | flat info kind extent =>
    exact congrFun (congrFun (t.fill_mapOps g (.flat info kind extent)) site) _
  | nested info element extent ih =>
    have hfill := t.fill_mapOps g (.nested info element extent)
    simp only [Descriptor.mapOps] at hfill
    simp [Descriptor.mapOps, lift, ih, hfill]
  | tensor info backing ih => simp [Descriptor.mapOps, lift, ih]

@[simp] theorem convertItems_mapOps (source target : Descriptor) (a : Object) :
    (t.mapOps g).convertItems (source.mapOps g) a (target.mapOps g) =
      t.convertItems source a target := by
  funext site convert
  simp [convertItems]

theorem convertTo_mapOps_of_source {site : Site} {a : Object} {target : Descriptor}
    (h : ∀ source, a.type ≠ target.key → t.descriptor a.type = .ok source →
      (t.mapOps g).descriptor a.type = .ok (source.mapOps g) →
      (t.mapOps g).convertTo site (.array a) (target.mapOps g) =
        t.convertTo site (.array a) target) :
    (t.mapOps g).convertTo site (.array a) (target.mapOps g) =
      t.convertTo site (.array a) target := by
  by_cases htype : a.type = target.key
  · rw [convertTo_of_type_eq _ _ htype, convertTo_of_type_eq _ _ (by simpa using htype)]
  · cases hs : t.descriptor a.type with
    | error cause =>
      rw [convertTo_of_descriptor_eq_error htype hs,
        convertTo_of_descriptor_eq_error (by simpa using htype)
          (by rw [descriptor_mapOps, hs]; rfl)]
    | ok source => exact h source htype hs (by rw [descriptor_mapOps, hs]; rfl)

/-- A conversion reads the types of arrays, and no tables. -/
@[simp] theorem convertTo_mapOps (site : Site) (v : Value) (target : Descriptor) :
    (t.mapOps g).convertTo site v (target.mapOps g) = t.convertTo site v target := by
  induction target generalizing site v with
  | flat info kind extent =>
    cases v with
    | scalar s => simp
    | array a =>
      refine convertTo_mapOps_of_source g t fun source hne hs hs' => ?_
      have hitems := t.convertItems_mapOps g source (.flat info kind extent) a
      refine (convertTo_flat (show a.type ≠ (info.mapOps g).key from hne) hs').trans ?_
      rw [convertTo_flat (show a.type ≠ info.key from hne) hs]
      simp only [Descriptor.mapOps, Descriptor.isTensor_mapOps, Descriptor.ndim_mapOps,
        Descriptor.name_mapOps, TypeInfo.name_mapOps] at hitems ⊢
      rw [hitems]
  | nested info element extent ih =>
    cases v with
    | scalar s => simp
    | array a =>
      refine convertTo_mapOps_of_source g t fun source hne hs hs' => ?_
      have hitems := t.convertItems_mapOps g source (.nested info element extent) a
      have hfill := t.fill_mapOps g (.nested info element extent)
      refine (convertTo_nested (show a.type ≠ (info.mapOps g).key from hne) hs').trans ?_
      rw [convertTo_nested (show a.type ≠ info.key from hne) hs]
      simp only [Descriptor.mapOps, Descriptor.isTensor_mapOps, Descriptor.ndim_mapOps,
        Descriptor.name_mapOps, TypeInfo.name_mapOps, ih] at hitems hfill ⊢
      rw [hitems, hfill]
  | tensor info backing ih =>
    cases v with
    | scalar s => simp
    | array a =>
      refine convertTo_mapOps_of_source g t fun source hne hs hs' => ?_
      refine (convertTo_tensor (show a.type ≠ (info.mapOps g).key from hne) hs').trans ?_
      rw [convertTo_tensor (show a.type ≠ info.key from hne) hs]
      simp only [Descriptor.isTensor_mapOps, Descriptor.ndim_mapOps, Descriptor.name_mapOps,
        Descriptor.lengthOf_mapOps, TypeInfo.name_mapOps, TypeInfo.key_mapOps, ih]

theorem convert_mapOps : (t.mapOps g).convert = t.convert := by
  funext site v key
  unfold convert
  rw [descriptor_mapOps]
  cases t.descriptor key with
  | error cause => rfl
  | ok d =>
    change ((t.mapOps g).convertTo site v (d.mapOps g)).map _ = _
    rw [convertTo_mapOps]
    rfl

@[simp] theorem adapt_mapOps : (t.mapOps g).adapt = t.adapt := by
  funext site key v
  simp [adapt, convert_mapOps]

/-! ### Unification -/

theorem highestFrom_mapOps (best : Option Descriptor) (vs : List Value) :
    (t.mapOps g).highestFrom (best.map (Descriptor.mapOps g)) vs =
      (t.highestFrom best vs).map (Option.map (Descriptor.mapOps g)) := by
  induction vs generalizing best with
  | nil => rfl
  | cons v vs ih =>
    cases v with
    | scalar s => exact ih best
    | array a =>
      simp only [highestFrom, descriptor_mapOps]
      cases t.descriptor a.type with
      | error cause => rfl
      | ok d =>
        have hall : (best.map (Descriptor.mapOps g)).all (d.mapOps g).outranks =
            best.all d.outranks := by
          cases best <;> simp
        change (t.mapOps g).highestFrom (if _ then some (d.mapOps g) else _) vs =
          (t.highestFrom (if best.all d.outranks then some d else best) vs).map _
        rw [hall, ← ih]
        split <;> rfl

theorem target_mapOps (vs : List Value) :
    (t.mapOps g).target vs = (t.target vs).map (Descriptor.mapOps g) := by
  have hhighest := t.highestFrom_mapOps g none vs
  simp only [Option.map_none] at hhighest
  unfold target
  rw [hhighest]
  rcases t.highestFrom none vs with cause | _ | d
  · rfl
  · simp [Except.map, bind, Except.bind]
    rfl
  · rfl

/-! ### Operands -/

@[simp] theorem partsOf_mapOps : (t.mapOps g).partsOf = t.partsOf := by
  funext v
  cases v with
  | scalar s => simp [partsOf]
  | array a =>
    simp only [partsOf, descriptor_mapOps]
    cases t.descriptor a.type with
    | error cause => rfl
    | ok d => exact congrFun (d.tensorParts_mapOps g) a

@[simp] theorem expandAll_mapOps : (t.mapOps g).expandAll = t.expandAll := by
  funext site vs
  simp [expandAll]

theorem tensorDescriptor_mapOps (v : Value) :
    (t.mapOps g).tensorDescriptor v = (t.tensorDescriptor v).map (Descriptor.mapOps g) := by
  cases v with
  | scalar s => simp [tensorDescriptor, throw, throwThe, MonadExceptOf.throw, Except.map]
  | array a =>
    simp only [tensorDescriptor, descriptor_mapOps]
    cases t.descriptor a.type with
    | error cause => rfl
    | ok d =>
      change (if (d.mapOps g).isTensor then _ else _) = Except.map _ (if d.isTensor then _ else _)
      cases hd : d.isTensor <;> simp [hd, pure, Except.pure, Except.map, throw, throwThe,
        MonadExceptOf.throw]

end Laws

/-! ### Registered types -/

section Registered

variable {t : TypeTable} {d : Descriptor}

theorem Registered.mapOps (h : t.Registered d) : (t.mapOps g).Registered (d.mapOps g) := by
  rw [Registered, Descriptor.key_mapOps, descriptor?_mapOps, h]
  rfl

theorem WellFormed.mapOps {v : Value} (h : t.WellFormed v) : (t.mapOps g).WellFormed v := by
  cases v with
  | scalar s => trivial
  | array a =>
    obtain ⟨d, hd, hi⟩ := h
    exact ⟨d.mapOps g, by rw [descriptor?_mapOps, hd]; rfl, (d.isInstance_mapOps g _).mpr hi⟩

theorem Placed.mapOps {i : Nat} (h : t.Placed i d) : (t.mapOps g).Placed i (d.mapOps g) := by
  obtain ⟨hkey, hcomponent, hbacking⟩ := h
  simp only [← Descriptor.isTensor_mapOps g d] at hbacking
  refine ⟨by simpa using hkey, fun c hc => ?_, fun hd c hc => ?_⟩
  · rw [Descriptor.component?_mapOps] at hc
    obtain ⟨c, hfound, rfl⟩ := Option.map_eq_some_iff.mp hc
    obtain ⟨hr, hp⟩ := hcomponent c hfound
    exact ⟨hr.mapOps g, by simpa using hp⟩
  · rw [Descriptor.component?_mapOps] at hc
    obtain ⟨c, hfound, rfl⟩ := Option.map_eq_some_iff.mp hc
    simpa using hbacking hd c hfound

theorem Regular.mapOps (h : t.Regular) : (t.mapOps g).Regular := by
  refine ⟨⟨fun d hd => ?_, fun i d hi hd => ?_⟩, fun d hd => ?_⟩
  · obtain ⟨d, hmem, rfl⟩ := List.mem_map.mp hd
    simpa using h.sound.key_lt d hmem
  · obtain ⟨d, hfound, rfl⟩ := Option.map_eq_some_iff.mp (List.getElem?_map .. ▸ hd)
    exact (h.sound.placed i d hi hfound).mapOps g
  · obtain ⟨d, hmem, rfl⟩ := List.mem_map.mp hd
    simpa using h.access d hmem

end Registered

end TypeTable

theorem Unifier.promote_mapOps (t : TypeTable) : promote (t.mapOps g) = promote t := by
  funext site mode vs
  have htarget := t.target_mapOps g (vs.drop mode.representative)
  unfold promote
  simp only [htarget]
  cases t.target (vs.drop mode.representative) <;> simp [Except.map]

/-! ## Registries -/

namespace Registry

/-- The registry with the tables of operations that `g` gives. -/
def mapOps (r : Registry) : Registry := { r with types := r.types.mapOps g }

section Laws

variable (r : Registry)

@[simp] theorem types_mapOps : (r.mapOps g).types = r.types.mapOps g := rfl

@[simp] theorem levels_mapOps : (r.mapOps g).levels = r.levels := by
  funext vs
  simp [levels]

@[simp] theorem frameOf_mapOps : (r.mapOps g).frameOf = r.frameOf := by
  funext c unified operands
  unfold frameOf
  cases hu : (c.representative unified).type? with
  | none => simp
  | some key => cases hd : r.types.descriptor? key <;> simp [hd]

theorem unified_mapOps (hu : r.unifier = .promote) : (r.mapOps g).unified = r.unified := by
  funext c site vs
  have hunifier : (r.mapOps g).unifier (r.types.mapOps g) = r.unifier r.types := by
    change r.unifier (r.types.mapOps g) = _
    rw [hu, Unifier.promote_mapOps]
  unfold unified
  simp [hunifier]

theorem tensorParts_mapOps (c : Call) (site : Site) (vs : List Value) :
    (r.mapOps g).tensorParts c site vs =
      (r.tensorParts c site vs).map fun (d, expanded) => (d.mapOps g, expanded) := by
  unfold tensorParts
  rw [types_mapOps, TypeTable.tensorDescriptor_mapOps, TypeTable.expandAll_mapOps]
  cases r.types.tensorDescriptor (c.representative vs) with
  | error cause => rfl
  | ok d => cases r.types.expandAll (site.child 2) vs <;> rfl

end Laws

theorem Arrays.mapOps {r : Registry} {vs : List Value} (h : r.Arrays vs) :
    (r.mapOps g).Arrays vs := by
  intro v hv
  obtain ⟨d, hd, hi⟩ := h v hv
  exact ⟨d.mapOps g, hd.mapOps g, (d.isInstance_mapOps g v).mpr hi⟩

end Registry

end ArrayDispatch
