import ArrayDispatch.Proofs.Dispatch.Call
import ArrayDispatch.Proofs.Shape.Reconcile

/-!
Tensor operands: their shapes, the elements that they contribute to a multi-index of the common
shape, and the backing arrays that a call on them works with.
-/

namespace ArrayDispatch

namespace Value

def tensor? (v : Value) : Option (Object × List Nat) := v.object?.bind (·.payload.tensor?)

def shape? (v : Value) : Option (List Nat) := v.tensor?.map Prod.snd

/-- What a tensor contributes to a multi-index: the element at the same coordinates, or at 0 on
the axes of extent 1; a tensor without axes contributes its only element. -/
def entry? (v : Value) (index : List Nat) : Option Value :=
  v.tensor?.bind fun (backing, shape) =>
    backing.payload.get? (Shape.offset shape (Shape.pin shape index))

end Value

def Shapes (vs : List Value) (shapes : List (List Nat)) : Prop :=
  List.Forall₂ (fun v s => v.shape? = some s) vs shapes

theorem Shapes.unique {vs : List Value} {ss ts : List (List Nat)} (hs : Shapes vs ss)
    (ht : Shapes vs ts) : ss = ts :=
  List.right_unique_forall₂' (fun _ _ _ h h' => Option.some.inj (h.symm.trans h')) hs ht

/-- The operands contribute these values to a multi-index. -/
def Entries (vs : List Value) (index : List Nat) (us : List Value) : Prop :=
  List.Forall₂ (fun v u => v.entry? index = some u) vs us

/-! ## Expansion -/

/-- `b` is the backing array `a` of shape `src`, as a call on operands of the common shape `dst`
reads it. -/
structure Object.ExpandsTo (a : Object) (src dst : List Nat) (b : Object) : Prop where
  type_eq : b.type = a.type
  form_eq : b.payload.form = a.payload.form
  length_eq : b.length = if src = [] then 1 else Shape.size dst
  item : ∀ i u, b.payload.get? i = some u → ∃ j, a.payload.get? j = some u
  element?_eq : ∀ index, Shape.Within index dst →
    (Value.array b).element? (Shape.offset dst index) =
      a.payload.get? (Shape.offset src (Shape.pin src index))

theorem Shape.offset_of_size_eq {index dst : List Nat} {n : Nat} (hi : Within index dst)
    (hn : n = size dst) : (if n = 1 then 0 else offset dst index) = offset dst index := by
  have hlt := offset_lt_size hi
  split <;> omega

theorem Object.expandsTo_self {a : Object} {src dst : List Nat} (hlen : a.length = Shape.size src)
    (h : src = [] ∨ src = dst) : a.ExpandsTo src dst a := by
  refine ⟨rfl, rfl, ?_, fun i u hu => ⟨i, hu⟩, fun index hi => ?_⟩
  · split
    · rename_i hnil
      rw [hlen, hnil]
      rfl
    · rename_i hne
      rw [hlen, h.resolve_left hne]
  · rcases h with rfl | rfl
    · have hone : a.length = 1 := hlen
      rw [Value.element?, hone, if_pos rfl]
      rfl
    · rw [Value.element?, Shape.offset_of_size_eq hi hlen, Shape.pin_self hi]

theorem Object.expand_of_not_fits {site : Site} {a : Object} {src dst : List Nat}
    (hs : ¬(src.isEmpty ∨ src = dst)) (h : ¬Shape.Fits dst) :
    a.expand site src dst = .error .overflow := by
  rw [expand, if_neg hs, Shape.gather, Shape.count_of_not_fits h]
  rfl

theorem Object.exists_expand {a : Object} {src dst : List Nat} (hf : a.payload.form ≠ .tensor)
    (hlen : a.length = Shape.size src) (hs : Shape.Expands src dst) (hfits : Shape.Fits dst)
    (site : Site) : ∃ b, a.expand site src dst = .ok b ∧ a.ExpandsTo src dst b := by
  unfold expand
  by_cases hkeep : src.isEmpty ∨ src = dst
  · rw [if_pos hkeep]
    exact ⟨a, rfl, expandsTo_self hlen (by simpa using hkeep)⟩
  · have hne : src ≠ [] := fun hnil => hkeep (.inl (by simp [hnil]))
    have hstretch : Shape.Stretches src dst := hs.resolve_left hne
    have hlt : ∀ k ∈ Shape.indices src dst (Shape.size dst), k < a.length := fun k hk =>
      hlen ▸ Shape.lt_size_of_mem_indices hstretch hk
    obtain ⟨q, hq, hform, hqlen, hget⟩ := Payload.exists_gather? hf hlt
    rw [if_neg hkeep, Shape.gather, Shape.count_of_fits hfits]
    simp only [Except.map, bind, Except.bind, hq]
    rw [Shape.length_indices] at hqlen
    refine ⟨_, rfl, rfl, hform, ?_, fun i u hu => ?_, fun index hi => ?_⟩
    · rw [if_neg hne]
      exact hqlen
    · change q.get? i = some u at hu
      rw [hget] at hu
      obtain ⟨j, _, hj⟩ := Option.bind_eq_some_iff.mp hu
      exact ⟨j, hj⟩
    · change q.get? (if q.length = 1 then 0 else _) = _
      rw [Shape.offset_of_size_eq hi hqlen, hget, Shape.getElem?_indices hstretch hi]
      rfl

/-! ## Operands -/

/-- `w` is the backing array of the tensor `v`, as a call on operands of the common shape `dst`
reads it. -/
structure Value.Expanded (dst : List Nat) (v w : Value) : Prop where
  isInstance : ∀ info backing, backing.isTensor = false → backing.extent = .dynamic →
    (Descriptor.tensor info backing).IsInstance v → backing.IsInstance w
  length?_eq : ∀ shape, v.shape? = some shape →
    w.length? = some (if shape = [] then 1 else Shape.size dst)
  element?_eq : ∀ index, Shape.Within index dst →
    w.element? (Shape.offset dst index) = v.entry? index

/-- The operands are instances of registered tensor types. -/
def TypeTable.Tensors (t : TypeTable) (vs : List Value) : Prop :=
  ∀ v ∈ vs, ∃ info backing, t.Registered (.tensor info backing) ∧
    (Descriptor.tensor info backing).IsInstance v

section Operands

variable {t : TypeTable} {info : TypeInfo} {backing : Descriptor} {vs : List Value}
  {shapes : List (List Nat)} {dst : List Nat}

theorem exists_tensor? {v : Value} (h : (Descriptor.tensor info backing).IsInstance v) :
    ∃ p, v.tensor? = some p := by
  obtain ⟨⟨id, type, p⟩, rfl, _, hholds⟩ := h
  cases p with
  | flat b => exact hholds.elim
  | nested items => exact hholds.elim
  | tensor a shape => exact ⟨(a, shape), rfl⟩

theorem isInstance_of_tensor? {v : Value} (h : (Descriptor.tensor info backing).IsInstance v)
    {p : Object × List Nat} (hp : v.tensor? = some p) :
    backing.IsInstance (.array p.1) ∧ p.1.length = Shape.size p.2 ∧ Shape.Fits p.2 := by
  obtain ⟨⟨id, type, q⟩, rfl, _, hholds⟩ := h
  cases q with
  | flat b => cases hp
  | nested items => cases hp
  | tensor a shape =>
    cases hp
    exact ⟨Descriptor.isInstance_array.mpr hholds.1, hholds.2⟩

theorem exists_shapes (hvs : t.Tensors vs) : ∃ shapes, Shapes vs shapes := by
  induction vs with
  | nil => exact ⟨[], .nil⟩
  | cons v vs ih =>
    obtain ⟨shapes, hs⟩ := ih fun w hw => hvs w (List.mem_cons_of_mem _ hw)
    obtain ⟨_, _, _, hi⟩ := hvs v (by simp)
    obtain ⟨p, hp⟩ := exists_tensor? hi
    exact ⟨p.2 :: shapes, .cons (by rw [Value.shape?, hp]; rfl) hs⟩

theorem partsOf_eq_ok_iff (hd : t.Registered (.tensor info backing)) {v : Value}
    (hv : (Descriptor.tensor info backing).IsInstance v) {p : Object × List Nat} :
    t.partsOf v = .ok p ↔ v.tensor? = some p := by
  obtain ⟨a, rfl, htype, _⟩ := hv
  have hget : t.descriptor a.type = .ok (.tensor info backing) :=
    TypeTable.descriptor_eq_ok_iff.mpr (htype ▸ hd)
  rw [TypeTable.partsOf, hget]
  change Descriptor.tensorParts _ a = _ ↔ a.payload.tensor? = _
  unfold Descriptor.tensorParts
  cases a.payload.tensor? <;> simp [pure, Except.pure, throw, throwThe, MonadExceptOf.throw]

theorem exists_expanded {v : Value} {p : Object × List Nat} (hp : v.tensor? = some p)
    (hf : p.1.payload.form ≠ .tensor) (hlen : p.1.length = Shape.size p.2)
    (hexp : Shape.Expands p.2 dst) (hfits : Shape.Fits dst) (site : Site) :
    ∃ b, p.1.expand site p.2 dst = .ok b ∧ v.Expanded dst (.array b) := by
  obtain ⟨b, hb, hx⟩ := Object.exists_expand hf hlen hexp hfits site
  refine ⟨b, hb, fun info backing hplain hext hv => ?_, fun shape hs => ?_, fun index hi => ?_⟩
  · obtain ⟨htype, hholds⟩ := Descriptor.isInstance_array.mp (isInstance_of_tensor? hv hp).1
    refine ⟨_, rfl, hx.type_eq.trans htype, ?_⟩
    refine Descriptor.holds_of_items hplain (hx.form_eq.trans (Descriptor.form_of_holds hholds))
      (by rw [hext]; trivial) fun i u hu => ?_
    obtain ⟨j, hj⟩ := hx.item i u hu
    exact Descriptor.hasItem_of_holds hholds hj
  · rw [Value.shape?, hp] at hs
    cases hs
    exact congrArg some hx.length_eq
  · rw [hx.element?_eq index hi, Value.entry?, hp]
    rfl

section Expand

variable (ht : t.Regular) (hvs : t.Tensors vs) (hs : Shapes vs shapes)

include ht hvs hs

theorem exists_parts :
    ∃ parts, vs.mapM t.partsOf = .ok parts ∧ parts.map Prod.snd = shapes ∧
      List.Forall₂ (fun v p => v.tensor? = some p ∧ p.1.payload.form ≠ .tensor ∧
        p.1.length = Shape.size p.2 ∧ Shape.Fits p.2) vs parts := by
  simp only [mapM_eq_ok_iff]
  induction hs with
  | nil => exact ⟨[], .nil, rfl, .nil⟩
  | @cons v shape vs shapes hv _ ih =>
    obtain ⟨parts, hparts, rfl, hall⟩ := ih fun w hw => hvs w (List.mem_cons_of_mem _ hw)
    obtain ⟨info, backing, hd, hi⟩ := hvs v (by simp)
    obtain ⟨p, hp, rfl⟩ := Option.map_eq_some_iff.mp hv
    obtain ⟨hbacking, hlen⟩ := isInstance_of_tensor? hi hp
    have hform := hbacking.form_eq
    refine ⟨p :: parts, .cons ((partsOf_eq_ok_iff hd hi).mpr hp) hparts, rfl,
      .cons ⟨hp, fun htensor => ?_, hlen⟩ hall⟩
    rw [hform, ← Descriptor.isTensor_iff, ht.component_isTensor hd rfl] at htensor
    cases htensor

theorem expandAll_of_reconcile_eq_error {cause : Cause}
    (h : Shape.reconcile shapes = .error cause) (site : Site) :
    t.expandAll site vs = .error cause := by
  obtain ⟨parts, hparts, hshapes, _⟩ := exists_parts ht hvs hs
  rw [TypeTable.expandAll, hparts]
  change (Shape.reconcile (parts.map Prod.snd) >>= fun shape => _) = _
  rw [hshapes, h]
  rfl

theorem expandAll_of_not_fits (h : Shape.reconcile shapes = .ok dst) (hfits : ¬Shape.Fits dst)
    (site : Site) : t.expandAll site vs = .error .overflow := by
  obtain ⟨parts, hparts, rfl, hall⟩ := exists_parts ht hvs hs
  have hpart : ∀ s ∈ parts.map Prod.snd, Shape.Fits s := by
    intro s hmem
    obtain ⟨p, hp, rfl⟩ := List.mem_map.mp hmem
    obtain ⟨v, _, _, _, _, hfit⟩ := exists_mem_of_forall₂ hall hp
    exact hfit
  obtain ⟨s, hmem, hnil, hne⟩ := Shape.exists_stretched h hpart hfits
  obtain ⟨p, hp, rfl⟩ := List.mem_map.mp hmem
  obtain ⟨k, hk⟩ := List.getElem?_of_mem hp
  have hstretched : ¬(p.2.isEmpty ∨ p.2 = dst) := by simpa using And.intro hnil hne
  have hmap : (parts.zipIdx.mapM fun q => q.1.1.expand (site.child q.2) q.1.2 dst) =
      .error .overflow := by
    refine mapM_eq_error (List.mk_mem_zipIdx_iff_getElem?.mpr hk)
      (Object.expand_of_not_fits hstretched hfits) fun q _ cause hcause => ?_
    by_cases hkeep : q.1.2.isEmpty ∨ q.1.2 = dst
    · rw [Object.expand, if_pos hkeep] at hcause
      cases hcause
    · rw [Object.expand_of_not_fits hkeep hfits] at hcause
      exact (Except.error.inj hcause).symm
  rw [TypeTable.expandAll, hparts]
  change (Shape.reconcile (parts.map Prod.snd) >>= fun shape => _) = _
  rw [h]
  change ((parts.zipIdx.mapM fun q => q.1.1.expand (site.child q.2) q.1.2 dst) >>=
    fun arrays => _) = _
  rw [hmap]
  rfl

theorem exists_expandAll (h : Shape.reconcile shapes = .ok dst) (hfits : Shape.Fits dst)
    (site : Site) :
    ∃ arrays, t.expandAll site vs = .ok (arrays, dst) ∧
      List.Forall₂ (Value.Expanded dst) vs arrays := by
  obtain ⟨parts, hparts, hshapes, hall⟩ := exists_parts ht hvs hs
  have hexp : ∀ p ∈ parts, Shape.Expands p.2 dst := fun p hp =>
    Shape.expands_of_reconcile h (hshapes ▸ List.mem_map_of_mem hp)
  have hmap : ∀ k, ∃ arrays : List Object,
      (parts.zipIdx k).mapM (fun q => q.1.1.expand (site.child q.2) q.1.2 dst) = .ok arrays ∧
        List.Forall₂ (Value.Expanded dst) vs (arrays.map .array) := by
    clear hparts hshapes hs hvs
    induction hall with
    | nil => exact fun k => ⟨[], rfl, .nil⟩
    | @cons v p vs parts hv _ ih =>
      intro k
      obtain ⟨arrays, harrays, hrest⟩ := ih (fun q hq => hexp q (List.mem_cons_of_mem _ hq)) (k + 1)
      obtain ⟨b, hb, hx⟩ := exists_expanded hv.1 hv.2.1 hv.2.2.1 (hexp p (by simp)) hfits
        (site.child k)
      refine ⟨b :: arrays, ?_, .cons hx hrest⟩
      rw [List.zipIdx_cons, List.mapM_cons, harrays]
      change (p.1.expand (site.child k) p.2 dst >>= fun b => _) = _
      rw [hb]
      rfl
  obtain ⟨arrays, harrays, hforall⟩ := hmap 0
  refine ⟨arrays.map .array, ?_, hforall⟩
  rw [TypeTable.expandAll, hparts]
  change (Shape.reconcile (parts.map Prod.snd) >>= fun shape => _) = _
  rw [hshapes, h]
  change ((parts.zipIdx 0).mapM (fun q => q.1.1.expand (site.child q.2) q.1.2 dst) >>=
    fun arrays => _) = _
  rw [harrays]
  rfl

end Expand

/-! ## Expanded operands -/

section Expanded

variable {arrays : List Value}

def Shape.expandedLengths (dst : List Nat) (shapes : List (List Nat)) : List Nat :=
  shapes.map fun s => if s = [] then 1 else size dst

theorem lengths_of_expanded (hx : List.Forall₂ (Value.Expanded dst) vs arrays)
    (hs : Shapes vs shapes) : Lengths arrays (Shape.expandedLengths dst shapes) := by
  induction hx generalizing shapes with
  | nil =>
    cases hs
    exact .nil
  | cons hv _ ih =>
    cases hs with
    | cons hshape hs => exact .cons (hv.length?_eq _ hshape) (ih hs)

/-- Expanded backing arrays have as many elements as the common shape, or one that is repeated. -/
theorem Shape.reconciles_expandedLengths (h : reconcile shapes = .ok dst) (hne : shapes ≠ []) :
    Reconciles (expandedLengths dst shapes) (size dst) := by
  have hone : [] ∈ shapes → 1 ≤ size dst := size_pos_of_nil_mem h
  refine ⟨?_, fun m hm => ?_, fun m hm => ?_⟩
  · by_cases hall : ∀ s ∈ shapes, s = []
    · obtain ⟨s, hs⟩ := List.exists_mem_of_ne_nil shapes hne
      refine List.mem_map.mpr ⟨s, hs, ?_⟩
      rw [if_pos (hall s hs), eq_nil_of_forall_eq_nil h hall]
      rfl
    · rw [not_forall] at hall
      obtain ⟨s, hs⟩ := hall
      rw [Classical.not_imp] at hs
      exact List.mem_map.mpr ⟨s, hs.1, if_neg hs.2⟩
  · obtain ⟨s, hs, rfl⟩ := List.mem_map.mp hm
    split
    · rename_i hnil
      exact hone (hnil ▸ hs)
    · exact Nat.le_refl _
  · obtain ⟨s, _, rfl⟩ := List.mem_map.mp hm
    split
    · exact .inl rfl
    · exact .inr rfl

theorem elements_expanded_iff (hx : List.Forall₂ (Value.Expanded dst) vs arrays)
    {index : List Nat} (hi : Shape.Within index dst) {us : List Value} :
    Elements arrays (Shape.offset dst index) us ↔ Entries vs index us := by
  induction hx generalizing us with
  | nil => exact ⟨fun h => by cases h; exact .nil, fun h => by cases h; exact .nil⟩
  | cons hv _ ih =>
    constructor
    · intro h
      cases h with
      | cons hu h => exact .cons (hv.element?_eq index hi ▸ hu) (ih.mp h)
    · intro h
      cases h with
      | cons hu h => exact .cons ((hv.element?_eq index hi).trans hu) (ih.mpr h)

theorem isInstance_of_expanded (ht : t.Regular) (hd : t.Registered (.tensor info backing))
    (hvs : ∀ v ∈ vs, (Descriptor.tensor info backing).IsInstance v)
    (hx : List.Forall₂ (Value.Expanded dst) vs arrays) : ∀ w ∈ arrays, backing.IsInstance w := by
  intro w hw
  obtain ⟨v, hv, hvw⟩ := exists_mem_of_forall₂ hx hw
  exact hvw.isInstance info backing (ht.component_isTensor hd rfl)
    ((ht.placed_of_registered hd).backing rfl backing rfl) (hvs v hv)

end Expanded

end Operands

end ArrayDispatch
