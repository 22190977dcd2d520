import ArrayDispatch.Proofs.Types.Conversion
import ArrayDispatch.Proofs.Value.Contents
import ArrayDispatch.Unify

/-!
Conversions at different sites. All that the site decides is where new objects are made: at any
other site the conversion gives the same contents, or fails with the same error.
-/

namespace ArrayDispatch

theorem foldlM_map {ε α β : Type} {f : β → β} {step step' : β → α → Except ε β}
    (h : ∀ b a, step' (f b) a = (step b a).map f) (xs : List α) (b : β) :
    xs.foldlM step' (f b) = (xs.foldlM step b).map f := by
  induction xs generalizing b with
  | nil => rfl
  | cons x xs ih =>
    rw [List.foldlM_cons, List.foldlM_cons, h]
    cases step b x with
    | error e => rfl
    | ok c => exact ih c

theorem Descriptor.contents_alloc {d : Descriptor} (hp : d.isTensor = false) (site : Site)
    (n : Nat) : (d.alloc site n).contents = d.alloc default n := by
  cases d with
  | flat info kind extent => rfl
  | nested info element extent => simp [alloc, Value.contents]
  | tensor info backing => cases hp

namespace TypeTable

variable {t : TypeTable} {d : Descriptor}

@[simp] theorem typeName_contents (t : TypeTable) (v : Value) :
    t.typeName v.contents = t.typeName v := by
  cases v with
  | scalar s => rfl
  | array a => simp only [Value.contents, typeName, Object.type_contents]

/-! ## Building -/

theorem store_contents (hd : d.info.access = .stock) (p : Payload) (i : Nat) (v : Value) :
    t.store d p.contents i v.contents = (t.store d p i v).map Payload.contents := by
  rw [store_eq hd, store_eq hd, Payload.set_contents]
  cases p.set i v with
  | ok q => rfl
  | error w =>
    simp only [typeName_contents]
    rfl

section Build

variable (hd : d.info.access = .stock) (hp : d.isTensor = false) (site : Site)

include hd hp

theorem build_contents (n : Nat) (item : Nat → Dispatched Value) :
    (t.build d site n item).map Object.contents =
      t.build d default n fun i => (item i).map Value.contents := by
  have hstep : ∀ (p : Payload) (i : Nat),
      (do t.store d p.contents i (← (item i).map Value.contents)) =
        Except.map Payload.contents (do t.store d p i (← item i)) := by
    intro p i
    cases item i with
    | error e => rfl
    | ok v => exact store_contents hd p i v
  unfold build
  rw [← Descriptor.contents_alloc hp site, foldlM_map hstep]
  cases (List.range n).foldlM (fun p i => do t.store d p i (← item i)) (d.alloc site n) <;> rfl

theorem fill_contents (v : Value) :
    (t.fill d site v).map Object.contents = t.fill d default v.contents :=
  build_contents hd hp site _ _

theorem fill_made_contents (x : Dispatched Object) :
    (x >>= fun item => t.fill d site (.array item)).map Object.contents =
      x.map Object.contents >>= fun item => t.fill d default (.array item) := by
  cases x with
  | error e => rfl
  | ok item => exact fill_contents hd hp site (.array item)

end Build

theorem tensor_made_contents (site : Site) (key : TypeKey) (shape : List Nat)
    (x : Dispatched Object) :
    (x >>= fun flat => (pure ⟨site, key, .tensor flat shape⟩ : Dispatched Object)).map
        Object.contents =
      (x.map Object.contents).map fun flat => ⟨default, key, .tensor flat shape⟩ := by
  cases x <;> rfl

/-! ## Converting -/

theorem lift_contents_eq (ht : t.Regular) (hd : t.Registered d) (s : Scalar) (site site' : Site) :
    (t.lift site s d).map Object.contents = (t.lift site' s d).map Object.contents := by
  have haccess := ht.access_of_registered hd
  induction d generalizing site site' with
  | flat info kind extent =>
    rw [lift, lift, fill_contents haccess rfl, fill_contents haccess rfl]
  | nested info element extent ih =>
    have hde := ht.registered_component hd rfl
    rw [lift, lift, fill_made_contents haccess rfl, fill_made_contents haccess rfl,
      ih hde _ _ (ht.access_of_registered hde)]
  | tensor info backing ih =>
    have hdb := ht.registered_component hd rfl
    rw [lift, lift, tensor_made_contents, tensor_made_contents,
      ih hdb _ _ (ht.access_of_registered hdb)]

theorem convertItems_contents_eq {source : Descriptor} (hd : d.info.access = .stock)
    (hp : d.isTensor = false) {convert convert' : Nat → Value → Dispatched Value}
    (h : ∀ i v, (convert i v).map Value.contents = (convert' i v).map Value.contents) (a : Object)
    (site site' : Site) :
    (t.convertItems source a d site convert).map Object.contents =
      (t.convertItems source a d site' convert').map Object.contents := by
  unfold convertItems
  simp only
  cases convertedLength d.extent (source.lengthOf a.payload) with
  | error cause => rfl
  | ok n =>
    refine (build_contents hd hp site n _).trans (Eq.trans ?_ (build_contents hd hp site' n _).symm)
    refine congrArg (t.build d default n) (funext fun i => ?_)
    cases source.item? a.payload (if source.lengthOf a.payload = 1 then 0 else i) with
    | none => rfl
    | some v => exact h i v

theorem map_array_contents (x : Dispatched Object) :
    (x.map Value.array).map Value.contents = (x.map Object.contents).map Value.array := by
  cases x <;> rfl

theorem convertTo_contents_eq_of_source (ht : t.Regular) (hd : t.Registered d)
    (h : ∀ a source, a.type ≠ d.key → t.descriptor a.type = .ok source → ∀ site site',
      (t.convertTo site (.array a) d).map Object.contents =
        (t.convertTo site' (.array a) d).map Object.contents) (v : Value) (site site' : Site) :
    (t.convertTo site v d).map Object.contents = (t.convertTo site' v d).map Object.contents := by
  cases v with
  | scalar s =>
    rw [convertTo_scalar, convertTo_scalar]
    exact lift_contents_eq ht hd s site site'
  | array a =>
    by_cases htype : a.type = d.key
    · rw [t.convertTo_of_type_eq site htype, t.convertTo_of_type_eq site' htype]
    · cases hs : t.descriptor a.type with
      | error cause =>
        rw [convertTo_of_descriptor_eq_error htype hs, convertTo_of_descriptor_eq_error htype hs]
      | ok source => exact h a source htype hs site site'

/-- A conversion gives the same contents at every site, or fails with the same error. -/
theorem convertTo_contents_eq (ht : t.Regular) (hd : t.Registered d) (v : Value)
    (site site' : Site) :
    (t.convertTo site v d).map Object.contents = (t.convertTo site' v d).map Object.contents := by
  have haccess := ht.access_of_registered hd
  induction d generalizing v site site' with
  | flat info kind extent =>
    refine convertTo_contents_eq_of_source ht hd
      (fun a source (htype : a.type ≠ info.key) hs site site' => ?_) v _ _
    rw [convertTo_flat htype hs, convertTo_flat htype hs]
    split
    · rfl
    · exact convertItems_contents_eq haccess rfl (fun _ _ => rfl) a site site'
  | nested info element extent ih =>
    have hde := ht.registered_component hd rfl
    have hitem := fun v site site' => ih hde v site site' (ht.access_of_registered hde)
    refine convertTo_contents_eq_of_source ht hd
      (fun a source (htype : a.type ≠ info.key) hs site site' => ?_) v _ _
    rw [convertTo_nested htype hs, convertTo_nested htype hs]
    split
    · rfl
    split
    · refine convertItems_contents_eq haccess rfl (fun i w => ?_) a site site'
      rw [map_array_contents, map_array_contents, hitem w (site.child i) (site'.child i)]
    split
    · rw [fill_made_contents haccess rfl, fill_made_contents haccess rfl,
        hitem (.array a) (site.child 0) (site'.child 0)]
    · rfl
  | tensor info backing ih =>
    have hdb := ht.registered_component hd rfl
    have hflat := fun v site site' => ih hdb v site site' (ht.access_of_registered hdb)
    refine convertTo_contents_eq_of_source ht hd
      (fun a source (htype : a.type ≠ info.key) hs site site' => ?_) v _ _
    rw [convertTo_tensor htype hs, convertTo_tensor htype hs]
    split
    · split
      · rw [tensor_made_contents, tensor_made_contents, hflat _ (site.child 0) (site'.child 0)]
      · rfl
    split
    · rw [tensor_made_contents, tensor_made_contents, hflat _ (site.child 0) (site'.child 0)]
    · rfl

theorem convert_contents_eq (ht : t.Regular) (hd : t.Registered d) (v : Value)
    (site site' : Site) :
    (t.convert site v d.key).map Value.contents = (t.convert site' v d.key).map Value.contents := by
  rw [convert_eq hd, convert_eq hd, map_array_contents, map_array_contents,
    convertTo_contents_eq ht hd v site site']

theorem adapt_contents_eq (ht : t.Regular) (hd : t.Registered d) (v : Value) (site site' : Site) :
    (t.adapt site d.key v).map Value.contents = (t.convert site' v d.key).map Value.contents := by
  unfold adapt
  split
  · rename_i htype
    cases v with
    | scalar s => cases htype
    | array a =>
      rw [convert_eq hd, t.convertTo_of_type_eq site' (Option.some.inj htype)]
      rfl
  · exact convert_contents_eq ht hd v site site'

end TypeTable

end ArrayDispatch
