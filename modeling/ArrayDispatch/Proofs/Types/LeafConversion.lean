import ArrayDispatch.Proofs.Stock.Lawful
import ArrayDispatch.Proofs.Types.TensorConversion
import ArrayDispatch.Proofs.Value.Path
import ArrayDispatch.Proofs.Value.StoredCast

/-!
What a conversion makes of the scalars in a value. Each of them is cast to the kind of the target,
levels that the value lacks repeat it as a whole, and a level of length 1 repeats its element.
-/

namespace ArrayDispatch

theorem Value.element?_of_get? {a : Object} {i : Nat} {u : Value} (h : a.payload.get? i = some u) :
    (array a).element? i = some u := by
  have hi : i < a.length := Payload.lt_length_of_get? h
  rw [← h, element?]
  congr 1
  split <;> omega

theorem Value.pinnedAt?_of_at? {v w : Value} {path : List Nat} (h : v.at? path = some w) :
    v.pinnedAt? path = some w := by
  induction path generalizing v with
  | nil => rwa [at?_nil] at h
  | cons i path ih =>
    cases v with
    | scalar s => cases h
    | array a =>
      obtain ⟨u, hu, h⟩ := Option.bind_eq_some_iff.mp h
      rw [pinnedAt?, element?_of_get? hu]
      exact ih h

namespace Descriptor

/-- No level of the type has the fixed length 0. -/
def NonemptyLevels : Descriptor → Prop
  | flat _ _ extent => extent ≠ .fixed 0
  | nested _ element extent => extent ≠ .fixed 0 ∧ element.NonemptyLevels
  | tensor _ backing => backing.NonemptyLevels

end Descriptor

/-- The scalars in `w`, on `n` levels, are those of `v`, on `s` levels, cast to the kind `k`. Those
at an index path come from where the path leads below the levels that `v` lacks; if all levels have
elements (`full`), none is lost. -/
structure CastsLeaves (n : Nat) (k : Kind) (full : Prop) (s : Nat) (v w : Value) : Prop where
  of_leaf : ∀ path x, w.at? path = some (.scalar x) → path.length = n ∧
    ∃ y, v.pinnedAt? (path.drop (n - s)) = some (.scalar y) ∧ x = y.cast k
  exists_leaf : full → ∀ path y, v.at? path = some (.scalar y) →
    ∃ front, front.length = n - s ∧ w.at? (front ++ path) = some (.scalar (y.cast k))

theorem castsLeaves_scalar (k : Kind) (full : Prop) (y : Scalar) :
    CastsLeaves 0 k full 0 (.scalar y) (.scalar (y.cast k)) := by
  constructor
  · intro path x h
    cases path with
    | nil =>
      cases h
      exact ⟨rfl, y, rfl, rfl⟩
    | cons i path => cases h
  · intro _ path x h
    cases path with
    | nil =>
      cases h
      exact ⟨[], rfl, rfl⟩
    | cons i path => cases h

theorem CastsLeaves.mono {n s : Nat} {k : Kind} {full full' : Prop} {v w : Value}
    (h : CastsLeaves n k full s v w) (hf : full' → full) : CastsLeaves n k full' s v w :=
  ⟨h.of_leaf, fun hfull => h.exists_leaf (hf hfull)⟩

namespace TypeTable

variable {t : TypeTable} {d source target : Descriptor} {site : Site} {a b : Object} {v w : Value}

/-! ## One level -/

theorem items_of_build (hd : d.info.access = .stock) (hp : d.isTensor = false) {n : Nat}
    {item : Nat → Dispatched Value} (h : t.build d site n item = .ok b) :
    b.length = n ∧ ∀ i, i < n → ∃ v w, item i = .ok v ∧ d.form.admit? v = some w ∧
      b.payload.get? i = some w := by
  refine ⟨length_of_build hd hp h, ?_⟩
  obtain ⟨p, hfold, hb⟩ := bind_eq_ok_iff.mp h
  cases hb
  have hitems := (filled_of_foldlM hd hfold).2.2
  rwa [d.form_alloc] at hitems

theorem items_of_convertItems (hs : source.info.access = .stock) (ha : source.Holds a.payload)
    (hd : target.info.access = .stock) (hp : target.isTensor = false)
    {convert : Nat → Value → Dispatched Value}
    (h : t.convertItems source a target site convert = .ok b) :
    convertedLength target.extent a.length = .ok b.length ∧
      ∀ i, i < b.length → ∃ u v w, (Value.array a).element? i = some u ∧ convert i u = .ok v ∧
        target.form.admit? v = some w ∧ b.payload.get? i = some w := by
  have hlen : source.lengthOf a.payload = a.length := Descriptor.lengthOf_of_holds hs ha
  have hitem : ∀ j, source.item? a.payload j = a.payload.get? j := by
    intro j
    unfold Descriptor.item?
    rw [hs]
    rfl
  unfold convertItems at h
  simp only [hlen, hitem] at h
  obtain ⟨n, hn, h⟩ := bind_eq_ok_iff.mp h
  obtain ⟨rfl, hitems⟩ := items_of_build hd hp h
  refine ⟨lift_eq_ok_iff.mp hn, fun i hi => ?_⟩
  obtain ⟨v, w, hv, hw, hget⟩ := hitems i hi
  cases hu : a.payload.get? (if a.length = 1 then 0 else i) with
  | none =>
    rw [hu] at hv
    cases hv
  | some u =>
    rw [hu] at hv
    exact ⟨u, v, w, hu, hv, hw, hget⟩

/-- Only a type of the fixed length 0 drops elements. -/
theorem lt_of_convertedLength {extent : Extent} {len n i : Nat}
    (h : convertedLength extent len = .ok n) (hne : extent ≠ .fixed 0) (hi : i < len) : i < n := by
  unfold convertedLength at h
  split at h
  · cases h
    exact hi
  · rename_i m
    have hm : m ≠ 0 := fun hm => hne (congrArg Extent.fixed hm)
    split at h
    · cases h
      omega
    · cases h

section Level

variable {n s : Nat} {k : Kind} {full : Prop}

/-- A value that is repeated on a new level is found behind each of its indices. -/
theorem castsLeaves_of_fill (hd : d.info.access = .stock) (hp : d.isTensor = false) (hs : s ≤ n)
    (hfull : full → d.extent ≠ .fixed 0) {u : Value} (hu : d.form.admit? u = some w)
    (hcasts : CastsLeaves n k full s v w) (h : t.fill d site u = .ok b) :
    CastsLeaves (n + 1) k full s v (.array b) := by
  obtain ⟨hlen, hitems⟩ := items_of_build hd hp h
  have hget : ∀ i, i < b.length → b.payload.get? i = some w := by
    intro i hi
    obtain ⟨u', w', hu', hw', hget⟩ := hitems i (hlen ▸ hi)
    cases hu'
    rw [hget, ← hw', hu]
  constructor
  · intro path x hx
    cases path with
    | nil => cases hx
    | cons i path =>
      obtain ⟨w', hw', hx⟩ := Option.bind_eq_some_iff.mp hx
      rw [hget i (Payload.lt_length_of_get? hw')] at hw'
      cases hw'
      obtain ⟨hpath, y, hy, hxy⟩ := hcasts.of_leaf path x hx
      refine ⟨congrArg (· + 1) hpath, y, ?_, hxy⟩
      rwa [Nat.succ_sub hs, List.drop_succ_cons]
  · intro hf path y hy
    obtain ⟨front, hfront, hx⟩ := hcasts.exists_leaf hf path y hy
    have hpos : 0 < b.length := by
      have hne := hfull hf
      rw [hlen]
      cases he : d.extent with
      | dynamic => exact Nat.one_pos
      | fixed m =>
        rw [he] at hne
        exact Nat.pos_of_ne_zero fun hm => hne (congrArg Extent.fixed hm)
    refine ⟨0 :: front, by rw [Nat.succ_sub hs, List.length_cons, hfront], ?_⟩
    rw [List.cons_append, Value.at?_array_cons, hget 0 hpos]
    exact hx

theorem castsLeaves_of_convertItems (hs : source.info.access = .stock)
    (ha : source.Holds a.payload) (hd : target.info.access = .stock)
    (hp : target.isTensor = false) (hfull : full → target.extent ≠ .fixed 0)
    {convert : Nat → Value → Dispatched Value}
    (hcasts : ∀ i u v w, source.HasItem u → convert i u = .ok v →
      target.form.admit? v = some w → CastsLeaves n k full n u w)
    (h : t.convertItems source a target site convert = .ok b) :
    CastsLeaves (n + 1) k full (n + 1) (.array a) (.array b) := by
  obtain ⟨hlen, hitems⟩ := items_of_convertItems hs ha hd hp h
  have hitem : ∀ i, i < b.length → ∃ u w, (Value.array a).element? i = some u ∧
      b.payload.get? i = some w ∧ CastsLeaves n k full n u w := by
    intro i hi
    obtain ⟨u, v, w, hu, hv, hw, hget⟩ := hitems i hi
    exact ⟨u, w, hu, hget, hcasts i u v w (Descriptor.hasItem_of_holds ha hu) hv hw⟩
  constructor
  · intro path x hx
    cases path with
    | nil => cases hx
    | cons i path =>
      obtain ⟨w', hw', hx⟩ := Option.bind_eq_some_iff.mp hx
      obtain ⟨u, w, hu, hw, hc⟩ := hitem i (Payload.lt_length_of_get? hw')
      cases hw.symm.trans hw'
      obtain ⟨hpath, y, hy, hxy⟩ := hc.of_leaf path x hx
      refine ⟨congrArg (· + 1) hpath, y, ?_, hxy⟩
      rw [Nat.sub_self, List.drop_zero] at hy ⊢
      rw [Value.pinnedAt?, hu]
      exact hy
  · intro hf path y hy
    cases path with
    | nil => cases hy
    | cons i path =>
      obtain ⟨u', hu', hy⟩ := Option.bind_eq_some_iff.mp hy
      have hi : i < a.length := Payload.lt_length_of_get? hu'
      obtain ⟨u, w, hu, hw, hc⟩ := hitem i (lt_of_convertedLength hlen (hfull hf) hi)
      -- a position of the operand is one at which it is read
      have hsame : u = u' := by
        have hpinned := Value.pinnedAt?_of_at?
          (show (Value.array a).at? [i] = some u' by rw [Value.at?_array_cons, hu']; simp)
        rw [Value.pinnedAt?, hu] at hpinned
        exact Option.some.inj hpinned
      subst hsame
      obtain ⟨front, hfront, hx⟩ := hc.exists_leaf hf path y hy
      rw [Nat.sub_self] at hfront
      cases List.length_eq_zero_iff.mp hfront
      refine ⟨[], (Nat.sub_self _).symm, ?_⟩
      rw [List.nil_append, Value.at?_array_cons, hw]
      exact hx

end Level

/-! ## Instances -/

/-- The scalars in an instance of a plain type are on its lowest level and of its kind. -/
theorem leaf_of_isInstance (ht : t.Regular) (hd : t.Registered d) (hp : d.isTensor = false)
    (hv : d.IsInstance v) {path : List Nat} {x : Scalar} (h : v.at? path = some (.scalar x)) :
    path.length = d.ndim ∧ x.kind = d.leafKind := by
  induction d generalizing v path with
  | flat info kind extent =>
    obtain ⟨a, rfl, _, hholds⟩ := hv
    cases path with
    | nil => cases h
    | cons i path =>
      obtain ⟨u, hu, h⟩ := Option.bind_eq_some_iff.mp h
      obtain ⟨s, rfl, hs⟩ := Descriptor.hasItem_of_holds hholds hu
      cases path with
      | nil =>
        cases h
        exact ⟨rfl, hs⟩
      | cons j path => cases h
  | nested info element extent ih =>
    obtain ⟨a, rfl, _, hholds⟩ := hv
    cases path with
    | nil => cases h
    | cons i path =>
      obtain ⟨u, hu, h⟩ := Option.bind_eq_some_iff.mp h
      obtain ⟨hlen, hkind⟩ := ih (ht.registered_component hd rfl) (ht.component_isTensor hd rfl)
        (Descriptor.hasItem_of_holds hholds hu) h
      exact ⟨congrArg (· + 1) hlen, hkind⟩
  | tensor info backing ih => cases hp

theorem castsLeaves_of_isInstance (ht : t.Regular) (hd : t.Registered d)
    (hp : d.isTensor = false) (hv : d.IsInstance v) (full : Prop) :
    CastsLeaves d.ndim d.leafKind full d.ndim v v := by
  constructor
  · intro path x hx
    obtain ⟨hlen, hkind⟩ := leaf_of_isInstance ht hd hp hv hx
    rw [Nat.sub_self, List.drop_zero]
    exact ⟨hlen, x, Value.pinnedAt?_of_at? hx, by rw [← hkind, Scalar.cast_self]⟩
  · intro _ path x hx
    obtain ⟨_, hkind⟩ := leaf_of_isInstance ht hd hp hv hx
    exact ⟨[], (Nat.sub_self _).symm, by rw [← hkind, Scalar.cast_self, List.nil_append, hx]⟩

/-! ## Whole values -/

/-- A scalar, on no level, or a well-formed array of a type that is no tensor, on as many levels as
the type has. -/
inductive PlainValue (t : TypeTable) : Value → Nat → Prop
  | scalar (x : Scalar) : PlainValue t (.scalar x) 0
  | array {d : Descriptor} {a : Object} (hd : t.Registered d) (hp : d.isTensor = false)
      (ha : d.IsInstance (.array a)) : PlainValue t (.array a) d.ndim

theorem PlainValue.of_descriptor {s : Nat} (h : t.PlainValue (.array a) s)
    (hfound : t.descriptor a.type = .ok source) :
    source.ndim = s ∧ t.Registered source ∧ source.isTensor = false ∧
      source.IsInstance (.array a) := by
  cases h with
  | array hd hp ha =>
    rw [ha.type_eq, descriptor_eq_ok_iff.mpr hd] at hfound
    cases hfound
    exact ⟨rfl, hd, hp, ha⟩

theorem castsLeaves_of_same_type (ht : t.Regular) (hd : t.Registered d) {s : Nat}
    (hv : t.PlainValue (.array a) s) (htype : a.type = d.key) (full : Prop) :
    CastsLeaves d.ndim d.leafKind full s (.array a) (.array a) := by
  obtain ⟨rfl, _, hp, hi⟩ := hv.of_descriptor (htype ▸ descriptor_eq_ok_iff.mpr hd)
  exact castsLeaves_of_isInstance ht hd hp hi full

theorem plainValue_of_hasItem (ht : t.Regular) (hd : t.Registered d) (hp : d.isTensor = false)
    (h : d.HasItem v) : t.PlainValue v (d.ndim - 1) := by
  cases d with
  | flat info kind extent =>
    obtain ⟨x, rfl, _⟩ := h
    exact .scalar x
  | nested info element extent =>
    obtain ⟨a, rfl, ha⟩ := h
    exact .array (ht.registered_component hd rfl) (ht.component_isTensor hd rfl) ⟨a, rfl, ha⟩
  | tensor info backing => cases hp

theorem castsLeaves_of_lift (ht : t.Regular) (hd : t.Registered d) (hp : d.isTensor = false)
    {x : Scalar} (h : t.lift site x d = .ok b) :
    CastsLeaves d.ndim d.leafKind d.NonemptyLevels 0 (.scalar x) (.array b) := by
  have haccess := ht.access_of_registered hd
  induction d generalizing site b with
  | flat info kind extent =>
    refine castsLeaves_of_fill haccess rfl (Nat.zero_le _) id
      (Form.admit?_flat_scalar kind (x.cast kind)) ?_ h
    have hcast : (x.cast kind).cast kind = x.cast kind := Scalar.cast_self (x.cast kind)
    rw [hcast]
    exact castsLeaves_scalar kind _ x
  | nested info element extent ih =>
    have hde := ht.registered_component hd rfl
    obtain ⟨item, hitem, h⟩ := bind_eq_ok_iff.mp h
    have hinner := ih hde (ht.component_isTensor hd rfl) hitem (ht.access_of_registered hde)
    exact castsLeaves_of_fill haccess rfl (Nat.zero_le _) And.left rfl (hinner.mono And.right) h
  | tensor info backing ih => cases hp

theorem castsLeaves_of_convertTo (ht : t.Regular) (hd : t.Registered d)
    (hp : d.isTensor = false) {s : Nat} (hv : t.PlainValue v s)
    (h : t.convertTo site v d = .ok b) :
    CastsLeaves d.ndim d.leafKind d.NonemptyLevels s v (.array b) := by
  have haccess := ht.access_of_registered hd
  induction d generalizing site v s b with
  | flat info kind extent =>
    cases v with
    | scalar x =>
      cases hv
      exact castsLeaves_of_lift ht hd hp (t.convertTo_scalar site x _ ▸ h)
    | array a =>
      rcases convertTo_array_cases h with ⟨htype, rfl⟩ | ⟨hne, source, hs⟩
      · exact castsLeaves_of_same_type ht hd hv htype _
      · obtain ⟨rfl, hds, hsp, hi⟩ := hv.of_descriptor hs
        obtain ⟨_, hdim, h⟩ := convertTo_flat_cases hne hs h
        rw [hdim]
        refine castsLeaves_of_convertItems (ht.access_of_registered hds) hi.holds haccess rfl id
          (fun i u v w _ hu hw => ?_) h
        cases hu
        cases u with
        | scalar y =>
          rw [Descriptor.form, Form.admit?_flat_scalar] at hw
          cases hw
          exact castsLeaves_scalar kind _ y
        | array c => cases hw
  | nested info element extent ih =>
    have hde := ht.registered_component hd rfl
    have helem : ∀ {site' : Site} {u : Value} {s' : Nat} {o : Object}, t.PlainValue u s' →
        t.convertTo site' u element = .ok o → CastsLeaves element.ndim element.leafKind
          (Descriptor.nested info element extent).NonemptyLevels s' u (.array o) := fun hu ho =>
      (ih hde (ht.component_isTensor hd rfl) hu ho (ht.access_of_registered hde)).mono And.right
    cases v with
    | scalar x =>
      cases hv
      exact castsLeaves_of_lift ht hd hp (t.convertTo_scalar site x _ ▸ h)
    | array a =>
      rcases convertTo_array_cases h with ⟨htype, rfl⟩ | ⟨hne, source, hs⟩
      · exact castsLeaves_of_same_type ht hd hv htype _
      · obtain ⟨rfl, hds, hsp, hi⟩ := hv.of_descriptor hs
        obtain ⟨_, ⟨hdim, h⟩ | ⟨hdim, item, hitem, h⟩⟩ := convertTo_nested_cases hne hs h
        · rw [hdim]
          refine castsLeaves_of_convertItems (ht.access_of_registered hds) hi.holds haccess rfl
            And.left (fun i u v w hu hv hw => ?_) h
          obtain ⟨o, ho, rfl⟩ := map_eq_ok_iff.mp hv
          cases hw
          have hplain := plainValue_of_hasItem ht hds hsp hu
          rw [hdim, Nat.add_sub_cancel] at hplain
          exact helem hplain ho
        · exact castsLeaves_of_fill haccess rfl (Nat.le_of_lt_succ hdim) And.left rfl
            (helem hv hitem) h
  | tensor info backing ih => cases hp

end TypeTable

/-- A conversion to a plain type keeps the scalars of its operand. Those of the result come from
the operand at the same index path, without the levels that the operand lacks, and are cast to the
kind of the type; no scalar is lost unless the type has a level of fixed length 0. -/
theorem convert_castsLeaves {r : Registry} (hr : r.Built) (hstock : r.types.StockAccess)
    {site : Site} {v w : Value} {s : Nat} {d : Descriptor} (hv : r.types.PlainValue v s)
    (hd : r.types.Registered d) (hp : d.isTensor = false)
    (h : r.types.convert site v d.key = .ok w) :
    CastsLeaves d.ndim d.leafKind d.NonemptyLevels s v w := by
  obtain ⟨b, hb, rfl⟩ := TypeTable.convertTo_of_convert hd h
  exact TypeTable.castsLeaves_of_convertTo ⟨hr.sound, hstock⟩ hd hp hv hb

/-- Two integers become rows of masks: each of the three rows has both, cast to booleans. -/
theorem convert_castsLeaves_maskRows :
    let x := Stock.integerArray ⟨[0]⟩ [2, 0]
    let row : Value := .array ⟨⟨[0, 1]⟩, Stock.boolX, .flat ⟨.bool, [true, false]⟩⟩
    let w : Value := .array ⟨⟨[1]⟩, Stock.array3bX, .nested [row, row, row]⟩
    Stock.registry.types.convert ⟨[1]⟩ x Stock.array3bX = .ok w ∧
      Stock.maskRowsType.NonemptyLevels ∧
      CastsLeaves 2 .bool Stock.maskRowsType.NonemptyLevels 1 x w := by
  intro x row w
  have hd : Stock.registry.types.Registered Stock.maskRowsType := rfl
  have hrow : Stock.registry.types.convertTo ⟨[0, 1]⟩ x Stock.masksType =
      .ok ⟨⟨[0, 1]⟩, Stock.boolX, .flat ⟨.bool, [true, false]⟩⟩ := rfl
  have hrows : Stock.registry.types.convertTo ⟨[1]⟩ x Stock.maskRowsType =
      .ok ⟨⟨[1]⟩, Stock.array3bX, .nested [row, row, row]⟩ := by
    refine (TypeTable.convertTo_nested (by decide) rfl).trans ?_
    change (Stock.registry.types.convertTo ⟨[0, 1]⟩ x Stock.masksType >>= fun item =>
      Stock.registry.types.fill Stock.maskRowsType ⟨[1]⟩ (.array item)) = _
    rw [hrow]
    rfl
  have hconvert : Stock.registry.types.convert ⟨[1]⟩ x Stock.array3bX = .ok w :=
    (TypeTable.convert_eq hd ⟨[1]⟩ x).trans (congrArg (Except.map Value.array) hrows)
  have hx : Stock.registry.types.PlainValue x 1 :=
    .array Stock.registered_integers rfl (Stock.isInstance_integerArray ⟨[0]⟩ [2, 0])
  have hlevels : Stock.maskRowsType.NonemptyLevels := by
    constructor <;> exact nofun
  have hcasts := convert_castsLeaves Stock.built_registry Stock.stockAccess_registry hx hd rfl
    hconvert
  exact ⟨hconvert, hlevels, hcasts⟩

end ArrayDispatch
