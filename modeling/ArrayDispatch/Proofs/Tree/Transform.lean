import ArrayDispatch.Proofs.Tree.Refill
import ArrayDispatch.Proofs.Types.Conversion
import ArrayDispatch.Proofs.Types.Zeros
import ArrayDispatch.Tree.Transform

/-!
The walk that rebuilds a tree. With a callback that succeeds on all leaves it makes a refilled tree,
and calls the callback on the leaves in depth-first order.
-/

namespace ArrayDispatch

open Walk

variable {ι σ : Type} [ForeignTypes ι] {f : Object → Walk σ Payload} {g : Object → Payload}

/-! ## Walks that hand out leaves -/

namespace Walk

variable {α β : Type}

/-- Hands an array to the callback and drops the payload. -/
def handed (f : Object → Walk σ Payload) (a : Object) : Walk σ Unit := f a >>= fun _ => pure ()

/-- The callback succeeds on all leaves, and its payloads are those that `g` names. -/
def FillsBy (f : Object → Walk σ Payload) (g : Object → Payload) (ls : List (Leaf ι)) : Prop :=
  ∀ l ∈ ls, ∀ s, ∃ s', (f l.array).runFrom s = (.ok (g l.array), s')

/-- The walk hands the leaves to the callback, in order, and ends with `a`. -/
def Yields (f : Object → Walk σ Payload) (ls : List (Leaf ι)) (a : α) (w : Walk σ α) : Prop :=
  w = forM (ls.map Leaf.array) (handed f) >>= fun _ => pure a

theorem FillsBy.exists_passes {ls : List (Leaf ι)} (hf : FillsBy f g ls) (s : σ) :
    ∃ s', Passes (handed f) (ls.map Leaf.array) s s' := by
  refine Walk.exists_passes (fun a ha s => ?_) s
  obtain ⟨l, hl, rfl⟩ := List.mem_map.mp ha
  obtain ⟨s', hs⟩ := hf l hl s
  exact ⟨s', by rw [handed, runFrom_bind_of_ok hs, runFrom_pure]⟩

section Yields

variable {ls ls' : List (Leaf ι)} {a : α} {b : β} {w : Walk σ α}

theorem Yields.pure (a : α) : Yields f ([] : List (Leaf ι)) a (pure a) := rfl

theorem Yields.bind {k : α → Walk σ β} (h : Yields f ls a w) (hk : Yields f ls' b (k a)) :
    Yields f (ls ++ ls') b (w >>= k) := by
  rw [Yields, h, List.map_append, List.forM_append, bind_assoc, bind_assoc]
  exact congrArg _ (funext fun _ => (pure_bind a k).trans hk)

theorem Yields.map (h : Yields f ls a w) (k : α → β) :
    Yields f ls (k a) (w >>= fun x => Pure.pure (k x)) := by
  rw [← List.append_nil ls]
  exact h.bind (.pure (k a))

theorem Yields.inside (h : Yields f ls a w) (node : Tree ι) :
    Yields f (ls.map (.inside node)) a w := by
  rw [Yields, List.map_map]
  exact h

theorem FillsBy.of_inside {node : Tree ι} (hf : FillsBy f g (ls.map (.inside node))) :
    FillsBy f g ls :=
  List.forall_mem_map.mp hf

/-- The walk never fails, so it needs no frame. -/
theorem Yields.framed (h : Yields f ls a w) (hf : FillsBy f g ls) (fr : Frame) :
    Yields f ls a (framed fr w) := by
  rw [framed_of_total fun s => ?_]
  · exact h
  · obtain ⟨s', hs⟩ := hf.exists_passes s
    exact ⟨a, s', by rw [h, runFrom_bind_of_ok hs.runFrom_forM, runFrom_pure]⟩

theorem Yields.single {l : Leaf ι} (hf : FillsBy f g [l]) :
    Yields f [l] (g l.array) (f l.array) := by
  refine ext fun s => ?_
  obtain ⟨s', hs⟩ := hf l List.mem_cons_self s
  have hpasses : Passes (handed f) [l.array] s s' :=
    .cons (by rw [handed, runFrom_bind_of_ok hs, runFrom_pure]) (.nil s')
  rw [hs, List.map_singleton, runFrom_bind_of_ok hpasses.runFrom_forM, runFrom_pure]

end Yields

end Walk

/-! ## Values -/

section Values

variable {t : TypeTable} {walker : String} {a : Object} {depth : ℕ} {site : Site}

/-! ### Arrays by their form -/

section Arrays

variable {d target : Descriptor} {info : TypeInfo} {transformItem : ℕ → Value → Walk σ (Tree ι)}

theorem transformValue_array (h : Transformer σ) (hd : t.Registered d) (ha : a.type = d.key) :
    (transformValue t walker h (depth + 1) site (.array a) : Walk σ (Tree ι)) =
      framed (.walk walker [t.typeName (.array a)])
        (liftM (h.retype d.key) >>= transformAs t h d site a fun i =>
          transformValue t walker h depth ((site.child 1).child i)) := by
  rw [transformValue, TypeTable.descriptor_of_type_eq hd ha]
  rfl

theorem transformArray_of_flat (h : Transformer σ) (kind : Kind) (extent : Extent) :
    transformArray t h (.flat info kind extent) target site a transformItem =
      h.fill (site.child 2) a
        (target.zeroed (site.child 0) ((Descriptor.flat info kind extent).lengthOf a.payload)) :=
  rfl

theorem transformArray_of_nested (h : Transformer σ) (element : Descriptor) (extent : Extent) :
    let d := Descriptor.nested info element extent
    let zeroed := target.zeroed (site.child 0) (d.lengthOf a.payload)
    transformArray t h d target site a transformItem =
      zeroed.withPayload <$>
        transformItems t d target a (d.lengthOf a.payload) zeroed.payload transformItem := by
  have hndim := Descriptor.not_ndim_nested_le_one info element extent
  exact if_neg hndim

theorem transformArray_of_tensor (h : Transformer σ) (backing : Descriptor) {b : Object}
    {shape : List ℕ} (hp : a.payload = .tensor b shape) :
    transformArray t h (.tensor info backing) target site a transformItem =
      ofAttempt (target.allocBacking (site.child 0) shape) >>= fun made =>
        h.fill (site.child 2) b made >>= fun out =>
          pure ⟨site, target.key, .tensor (out.copyAt made.id) shape⟩ := by
  rw [transformArray, transformTensor, Descriptor.tensorParts_of_tensor hp]
  rfl

end Arrays

/-! ### Types that stay -/

theorem transformValue_ofLeaves {d : Descriptor} (hd : t.Registered d) (ha : a.type = d.key) :
    (transformValue t walker (.ofLeaves f) (depth + 1) site (.array a) : Walk σ (Tree ι)) =
      framed (.walk walker [t.typeName (.array a)])
        (transformArray t (.ofLeaves f) d d site a
          (fun i => transformValue (ι := ι) t walker (.ofLeaves f) depth
            ((site.child 1).child i)) >>= fun out => pure (.value (.array (out.copyAt site)))) := by
  rw [transformValue_array _ hd ha]
  change framed _ (transformAs _ _ _ _ _ _ (some d.key)) = _
  rw [transformAs, TypeTable.descriptor_eq_ok_iff.mpr hd]
  rfl

theorem transformValue_of_flat {info : TypeInfo} {kind : Kind} {extent : Extent}
    (hd : t.Registered (.flat info kind extent)) (ha : a.type = info.key) :
    (transformValue t walker (.ofLeaves f) (depth + 1) site (.array a) : Walk σ (Tree ι)) =
      framed (.walk walker [t.typeName (.array a)])
        (f a >>= fun p => pure (.value (.array ⟨site, a.type, p⟩))) := by
  rw [transformValue_ofLeaves hd ha, transformArray_of_flat, Descriptor.zeroed_eq, ha]
  simp only [Transformer.ofLeaves, bind_map_left]
  rfl

theorem transformValue_of_tensor {info : TypeInfo} {backing : Descriptor}
    (hd : t.Registered (.tensor info backing)) (ha : a.type = info.key) {b : Object}
    {shape : List ℕ} (hp : a.payload = .tensor b shape) (hb : b.type = backing.key) {n : ℕ}
    (hn : Shape.count shape = .ok n) :
    (transformValue t walker (.ofLeaves f) (depth + 1) site (.array a) : Walk σ (Tree ι)) =
      framed (.walk walker [t.typeName (.array a)]) (f b >>= fun p =>
        pure (.value (.array ⟨site, a.type, .tensor ⟨site.child 0, b.type, p⟩ shape⟩))) := by
  rw [transformValue_ofLeaves hd ha, transformArray_of_tensor _ _ hp, ha, hb,
    Descriptor.allocBacking, hn]
  simp only [Transformer.ofLeaves, bind_map_left, bind_assoc, pure_bind]
  rfl

theorem transformValue_of_nested (ht : t.Regular) {info : TypeInfo} {element : Descriptor}
    {extent : Extent} (hd : t.Registered (.nested info element extent)) (ha : a.type = info.key)
    {xs : List Value} (hp : a.payload = .nested xs) (hn : extent.Admits xs.length) :
    (transformValue t walker (.ofLeaves f) (depth + 1) site (.array a) : Walk σ (Tree ι)) =
      framed (.walk walker [t.typeName (.array a)])
        (transformItems t (.nested info element extent) (.nested info element extent) a xs.length
          ((Descriptor.nested info element extent).allocZero (site.child 0) xs.length)
          (fun i => transformValue (ι := ι) t walker (.ofLeaves f) depth
            ((site.child 1).child i)) >>= fun p => pure (.value (.array ⟨site, a.type, p⟩))) := by
  have hextent : (Descriptor.nested info element extent).extent.fixed?.getD xs.length =
      xs.length := hn.getD_eq
  rw [transformValue_ofLeaves hd ha, transformArray_of_nested,
    Descriptor.lengthOf_of_nested ht hd hp hn, Descriptor.zeroed_eq, hextent, ha, bind_map_left]
  rfl

theorem transformItems_succ (d target : Descriptor) (a : Object) (n : ℕ) (p : Payload)
    (transformItem : ℕ → Value → Walk σ (Tree ι)) :
    transformItems t d target a (n + 1) p transformItem =
      transformItems t d target a n p transformItem >>= fun p => itemAt d a n >>= fun item =>
        transformItem n item >>= storeNode t target p n := by
  rw [transformItems, List.range_succ, List.foldlM_append]
  simp only [List.foldlM_cons, List.foldlM_nil, bind_pure]
  rfl

/-- An element is stored in the first place that is untouched. -/
theorem TypeTable.Regular.store_next (ht : t.Regular) {info : TypeInfo} {element : Descriptor}
    {extent : Extent} (hd : t.Registered (.nested info element extent)) {ys zs : List Value}
    (w : Value) {k : ℕ} (hk : ys.length = k) (hlt : k < zs.length) :
    t.store (.nested info element extent) (.nested (ys ++ zs.drop k)) k w =
      .ok (.nested (ys ++ [w] ++ zs.drop (k + 1))) := by
  have hset : (ys ++ zs.drop k).set k w = ys ++ [w] ++ zs.drop (k + 1) := by
    rw [List.drop_eq_getElem_cons hlt, List.set_append_right k w hk.le, hk, Nat.sub_self,
      List.set_cons_zero, List.append_assoc, List.singleton_append]
  rw [TypeTable.store_of_stock (ht.access_of_registered hd), Payload.set_nested, hset]
  rw [List.length_append, List.length_drop]
  omega

theorem transformItems_yields (ht : t.Regular) {info : TypeInfo} {element : Descriptor}
    {extent : Extent} (hd : t.Registered (.nested info element extent)) {a : Object}
    {xs zs : List Value} (hp : a.payload = .nested xs) (hlen : zs.length = xs.length)
    {transformItem : ℕ → Value → Walk σ (Tree ι)}
    (hitem : ∀ i x, xs[i]? = some x →
      ∃ w, x.Refilled g w ∧
        Yields f (x.leaves : List (Leaf ι)) (.value w) (transformItem i x)) :
    ∃ ys, List.Forall₂ (Value.Refilled g) xs ys ∧
      Yields f (xs.flatMap Value.leaves : List (Leaf ι)) (.nested ys)
        (transformItems t (.nested info element extent) (.nested info element extent) a xs.length
          (.nested zs) transformItem) := by
  -- after `k` elements, the first `k` places hold rebuilt elements and the others are untouched
  have hprefix : ∀ k ≤ xs.length, ∃ ys, List.Forall₂ (Value.Refilled g) (xs.take k) ys ∧
      Yields f ((xs.take k).flatMap Value.leaves : List (Leaf ι)) (.nested (ys ++ zs.drop k))
        (transformItems t (.nested info element extent) (.nested info element extent) a k
          (.nested zs) transformItem) := by
    intro k
    induction k with
    | zero => exact fun _ => ⟨[], .nil, .pure _⟩
    | succ k ih =>
      intro hk
      obtain ⟨ys, hys, hyields⟩ := ih (Nat.le_of_succ_le hk)
      obtain ⟨x, hx⟩ : ∃ x, xs[k]? = some x := ⟨xs[k], List.getElem?_eq_getElem hk⟩
      obtain ⟨w, hw, hstep⟩ := hitem k x hx
      refine ⟨ys ++ [w], ?_, ?_⟩
      · rw [List.take_add_one, hx]
        exact List.rel_append hys (.cons hw .nil)
      · have hlast : ys.length = k := by
          rw [← hys.length_eq, List.length_take, Nat.min_eq_left (Nat.le_of_succ_le hk)]
        have hstore := ht.store_next hd w hlast (hlen.symm ▸ hk)
        rw [transformItems_succ, List.take_add_one, hx, List.flatMap_append]
        refine hyields.bind ?_
        rw [itemAt_of_nested ht hd hp hx, pure_bind, Option.toList_some, List.flatMap_singleton,
          ← List.append_nil x.leaves]
        refine hstep.bind ?_
        rw [storeNode, hstore]
        exact .pure _
  obtain ⟨ys, hys, hyields⟩ := hprefix xs.length le_rfl
  rw [List.take_length] at hys hyields
  rw [List.drop_of_length_le hlen.le, List.append_nil] at hyields
  exact ⟨ys, hys, hyields⟩

theorem transformValue_yields (ht : t.Regular) {d : Descriptor} (hd : t.Registered d) {v : Value}
    (hi : d.IsInstance v) {depth : ℕ} (hdepth : v.depth ≤ depth)
    (hf : FillsBy f g (v.leaves : List (Leaf ι))) (site : Site) :
    ∃ w, v.Refilled g w ∧ Yields f (v.leaves : List (Leaf ι)) (Tree.value w : Tree ι)
      (transformValue t walker (.ofLeaves f) (depth + 1) site v) := by
  induction d generalizing v depth site with
  | flat info kind extent =>
    obtain ⟨a, rfl, ha, _⟩ := id hi
    obtain ⟨b, hp⟩ := hi.exists_flat
    rw [Value.leaves_of_flat hp] at hf ⊢
    refine ⟨_, .flat hp site, ?_⟩
    rw [transformValue_of_flat hd ha]
    exact ((Yields.single hf).map _).framed hf _
  | nested info element extent ih =>
    obtain ⟨a, rfl, ha, _⟩ := id hi
    obtain ⟨xs, hp, hxs, hn⟩ := hi.exists_nested
    rw [Value.leaves_of_nested hp] at hf ⊢
    obtain ⟨depth, rfl, hdepths⟩ := Value.exists_depth_of_nested hp hdepth
    have hitem : ∀ i x, xs[i]? = some x → ∃ w, x.Refilled g w ∧
        Yields f (x.leaves : List (Leaf ι)) (Tree.value w : Tree ι)
          (transformValue t walker (.ofLeaves f) (depth + 1) ((site.child 1).child i) x) := by
      intro i x hx
      have hmem := List.mem_of_getElem? hx
      exact ih (ht.registered_component hd rfl) (hxs x hmem) (hdepths x hmem)
        (fun l hl => hf.of_inside l (List.mem_flatMap.mpr ⟨x, hmem, hl⟩)) _
    obtain ⟨zs, hzs, hzeroed⟩ :=
      Descriptor.exists_allocZero_nested info element extent (site.child 0) xs.length
    obtain ⟨ys, hys, hyields⟩ := transformItems_yields ht hd hp hzs hitem
    obtain ⟨hlen, hrefilled⟩ := List.forall₂_iff_zip.mp hys
    refine ⟨_, .nested hp site hlen fun p hp => hrefilled hp, ?_⟩
    rw [transformValue_of_nested ht hd ha hp hn, hzeroed]
    exact ((hyields.map _).inside _).framed hf _
  | tensor info backing ih =>
    obtain ⟨a, rfl, ha, _⟩ := id hi
    obtain ⟨b, shape, hp, hb, hn⟩ := hi.exists_tensor
    rw [Value.leaves_of_tensor hp] at hf ⊢
    refine ⟨_, .tensor hp site (site.child 0), ?_⟩
    rw [transformValue_of_tensor hd ha hp hb.type_eq hn]
    exact ((Yields.single hf).map _).framed hf _

end Values

/-! ## Nodes -/

section Nodes

variable {t : TypeTable} {walker : String} {site : Site}

theorem transformEntries_eq (h : Transformer σ) (i : ℕ) (entries : List (String × Tree ι)) :
    transformEntries t walker h site i entries =
      transformAll t walker h site i (entries.map Prod.snd) >>=
        fun ys => pure ((entries.map Prod.fst).zip ys) := by
  induction entries generalizing i with
  | nil => rfl
  | cons e entries ih =>
    rw [transformEntries, ih, List.map_cons, List.map_cons, transformAll]
    simp only [bind_assoc, pure_bind, List.zip_cons_cons]

theorem transform_of_node (h : Transformer σ) {x : Tree ι} (hx : x.value? = none) :
    transform t walker h site x = framed (.walk walker [t.nodeName x])
      (transformAll t walker h site 0 x.children >>= fun ys => pure (x.withChildren ys)) := by
  cases x with
  | value v => cases hx
  | list items => rw [transform, map_eq_pure_bind]; rfl
  | tuple items => rw [transform, map_eq_pure_bind]; rfl
  | map entries =>
    rw [transform, map_eq_pure_bind, transformEntries_eq, bind_assoc]
    simp only [pure_bind]
    rfl
  | record m values => rw [transform, map_eq_pure_bind]; rfl
  | foreign x => rfl
  | empty => rfl

theorem transformAll_yields {xs : List (Tree ι)}
    (h : ∀ x ∈ xs, ∀ site, ∃ y, x.Refilled g y ∧
      Yields f x.leaves y (transform t walker (.ofLeaves f) site x)) (site : Site) (i : ℕ) :
    ∃ ys, List.Forall₂ (Tree.Refilled g) xs ys ∧
      Yields f (xs.flatMap Tree.leaves) ys (transformAll t walker (.ofLeaves f) site i xs) := by
  induction xs generalizing i with
  | nil => exact ⟨[], .nil, .pure []⟩
  | cons x xs ih =>
    obtain ⟨y, hy, hstep⟩ := h x List.mem_cons_self (site.child i)
    obtain ⟨ys, hys, hrest⟩ := ih (fun z hz => h z (List.mem_cons_of_mem x hz)) (i + 1)
    exact ⟨y :: ys, .cons hy hys, hstep.bind (hrest.map (y :: ·))⟩

/-- A well-formed tree is rebuilt as a refilled one. -/
theorem transform_yields (ht : t.Regular) {x : Tree ι} (hx : x.WellFormed t)
    (hf : FillsBy f g x.leaves) (walker : String) (site : Site) :
    ∃ y, x.Refilled g y ∧ Yields f x.leaves y (transform t walker (.ofLeaves f) site x) := by
  induction hx generalizing site with
  | @value v h =>
    rw [transform]
    cases v with
    | scalar s => exact ⟨_, .value (.scalar s), .pure _⟩
    | array a =>
      obtain ⟨d, hd, hi⟩ := h.exists_isInstance
      obtain ⟨w, hw, hyields⟩ := transformValue_yields ht hd hi le_rfl hf site
      exact ⟨_, .value hw, hyields⟩
  | @node x hxv _ _ ih =>
    rw [Tree.leaves_of_node hxv] at hf ⊢
    have hchildren : ∀ c ∈ x.children, ∀ site, ∃ y, c.Refilled g y ∧
        Yields f c.leaves y (transform t walker (.ofLeaves f) site c) := fun c hc =>
      ih c hc fun l hl => hf.of_inside l (List.mem_flatMap.mpr ⟨c, hc, hl⟩)
    obtain ⟨ys, hys, hyields⟩ := transformAll_yields hchildren site 0
    obtain ⟨hlen, hrefilled⟩ := List.forall₂_iff_zip.mp hys
    refine ⟨x.withChildren ys, .node hxv hlen fun p hp => hrefilled hp, ?_⟩
    rw [transform_of_node _ hxv]
    exact ((hyields.map _).inside x).framed hf _

end Nodes

/-- A transformation that keeps all types, by a callback that succeeds on all leaves, succeeds. It
calls the callback on the leaves in depth-first order, once each, from the state before the walk to
the one after it. What it makes is the tree refilled with the payloads that the callback gives, and
the walk over both passes every leaf with the array in its place. If the payloads are those of the
leaves themselves, then the tree has the same contents, bit by bit, and is equal to the same trees;
identities alone are new. -/
theorem transform_refilled {r : Registry} (hr : r.Built) (ha : r.types.StockAccess) {x : Tree ι}
    (hx : x.WellFormed r.types) (hf : FillsBy f g x.leaves) (walker : String) (site : Site) (s : σ)
    {τ : Type} {visit : Value → Value → Walk τ Unit} (hv : TotalPair visit) (u : τ) :
    ∃ y s', (transform r.types walker (.ofLeaves f) site x).runFrom s = (.ok y, s') ∧
      Passes (handed f) (x.leaves.map Leaf.array) s s' ∧
      x.Refilled g y ∧
      (∃ ps u', (traversePair r.types walker (notedPair visit) x y).runFrom ([], u) =
          (.ok (), ps, u') ∧
        List.Forall₂ (Leaf.Beside g) x.leaves ps) ∧
      ((∀ l ∈ x.leaves, g l.array = l.array.payload) →
        y.contents = x.contents ∧ ∀ z, y.equals z = x.equals z) := by
  have ht : r.types.Regular := ⟨hr.sound, ha⟩
  obtain ⟨y, hy, hyields⟩ := transform_yields ht hx hf walker site
  obtain ⟨s', hs⟩ := hf.exists_passes s
  obtain ⟨ps, hps, hpair⟩ := passesBeside_traversePair ht hv.notedPair hx hy walker
  obtain ⟨u', hu⟩ := hv.exists_passes ps u
  refine ⟨y, s', ?_, hs, hy, ⟨ps, u', ?_, hps⟩, fun hg => ?_⟩
  · rw [hyields, runFrom_bind_of_ok hs.runFrom_forM, runFrom_pure]
  · rw [hpair]
    exact (hu.noted []).runFrom_forM
  · have hcontents := hy.contents_eq hg
    exact ⟨hcontents, Tree.equals_eq_of_contents_eq hcontents⟩

/-- A copy of a tree is equal to it, and the callback has been called four times. -/
theorem transform_refilled_copy :
    let x := Stock.sampleTree [3] [[true], [false, true], []]
    let copy : Object → Walk ℕ Payload := fun a n => (.ok a.payload, n + 1)
    let visit : Value → Value → Walk ℕ Unit := fun _ _ n => (.ok (), n + 1)
    let types := Stock.registry.types
    Stock.registry.Built ∧ types.StockAccess ∧ x.WellFormed types ∧
      FillsBy copy Object.payload x.leaves ∧ TotalPair visit ∧
      ∃ y, (transform types "copy" (.ofLeaves copy) ⟨[2]⟩ x).runFrom 0 = (.ok y, 4) ∧
        x.Refilled Object.payload y ∧ y.contents = x.contents ∧ y.equals x = true ∧
        ∃ ps u', (traversePair types "copy" (notedPair visit) x y).runFrom ([], 0) =
            (.ok (), ps, u') ∧
          List.Forall₂ (Leaf.Beside Object.payload) x.leaves ps := by
  intro x copy visit types
  have hx : x.WellFormed types := Stock.wellFormed_sampleTree _ rfl
  have hf : FillsBy copy Object.payload x.leaves := fun _ _ s => ⟨s + 1, rfl⟩
  have hv : TotalPair visit := fun _ s => ⟨(), s + 1, rfl⟩
  obtain ⟨y, s', hrun, _, hy, hpairs, hown⟩ := transform_refilled Stock.built_registry
    Stock.stockAccess_registry hx hf "copy" ⟨[2]⟩ 0 hv 0
  obtain ⟨hcontents, hequals⟩ := hown fun _ _ => rfl
  have hcount : ((transform types "copy" (.ofLeaves copy) ⟨[2]⟩ x).runFrom 0).2 = 4 := by
    decide +kernel
  have hself : x.equals x = true := by decide +kernel
  rw [hrun] at hcount
  exact ⟨Stock.built_registry, Stock.stockAccess_registry, hx, hf, hv, y, hcount ▸ hrun, hy,
    hcontents, (hequals x).trans hself, hpairs⟩

end ArrayDispatch
