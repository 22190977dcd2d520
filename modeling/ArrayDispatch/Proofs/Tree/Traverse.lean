import ArrayDispatch.Proofs.Dispatch.Elementwise
import ArrayDispatch.Proofs.Tree.Leaves
import ArrayDispatch.Proofs.Tree.Walk
import ArrayDispatch.Tree.Traverse

/-!
The walk over one tree. It visits the leaves in depth-first order up to the first one on which the
callback fails, and the failure escapes from the nodes of that leaf.
-/

namespace ArrayDispatch

open Walk

variable {ι σ : Type} [ForeignTypes ι] {t : TypeTable}

/-! ## Reading the nodes -/

section Items

variable {info : TypeInfo} {element : Descriptor} {extent : Extent} {a : Object}
  {items : List Value}

/-- With the accessors of the payload, the length of an array of arrays is its number of items. -/
theorem Descriptor.lengthOf_of_nested (ht : t.Regular)
    (hd : t.Registered (.nested info element extent)) (hp : a.payload = .nested items)
    (hn : extent.Admits items.length) :
    (nested info element extent).lengthOf a.payload = items.length := by
  rw [lengthOf, ht.access_of_registered hd, hp, Descriptor.extent]
  cases extent with
  | fixed n => exact hn.symm
  | dynamic => rfl

theorem Walk.itemAt_of_nested (ht : t.Regular) (hd : t.Registered (.nested info element extent))
    (hp : a.payload = .nested items) {i : ℕ} {v : Value} (hv : items[i]? = some v) :
    (itemAt (.nested info element extent) a i : Walk σ Value) = pure v := by
  have hitem : (Descriptor.nested info element extent).item? a.payload i = some v := by
    rw [Descriptor.item?, ht.access_of_registered hd, hp]
    exact hv
  rw [itemAt, hitem]

end Items

/-- The visit of one leaf, whose failure escapes from the nodes of the leaf. -/
def Leaf.visited (t : TypeTable) (walker : String) (visit : Value → Walk σ Unit) (l : Leaf ι) :
    Walk σ Unit :=
  framedAll (l.frames t walker) (visit l.value)

variable {walker : String} {visit : Value → Walk σ Unit}

theorem Leaf.visited_inside (node : Tree ι) (l : Leaf ι) :
    (l.inside node).visited t walker visit =
      framed (.walk walker [t.nodeName node]) (l.visited t walker visit) := by
  rw [visited, frames_inside, framedAll_append_singleton]
  rfl

theorem forM_inside (node : Tree ι) (ls : List (Leaf ι)) :
    forM (ls.map (.inside node)) (Leaf.visited t walker visit) =
      framed (.walk walker [t.nodeName node]) (forM ls (Leaf.visited t walker visit)) := by
  rw [framed_forM, List.forM_map]
  exact forM_congr fun l _ => Leaf.visited_inside node l

/-! ## The walk as a walk over the leaves -/

theorem traverseValue_eq (ht : t.Regular) {d : Descriptor} (hd : t.Registered d) {v : Value}
    (hi : d.IsInstance v) {depth : ℕ} (hdepth : v.depth ≤ depth) :
    traverseValue t walker visit depth v =
      forM (v.leaves : List (Leaf ι)) (Leaf.visited t walker visit) := by
  induction d generalizing v depth with
  | flat info kind extent =>
    obtain ⟨a, rfl, _⟩ := id hi
    obtain ⟨b, hp⟩ := hi.exists_flat
    rw [Value.leaves_of_flat hp, traverseValue, TypeTable.descriptor_of_type_eq hd hi.type_eq]
    simp [Descriptor.isTensor, Descriptor.ndim, Leaf.visited, Leaf.frames, Leaf.value, framedAll,
      TypeTable.nodeName]
  | nested info element extent ih =>
    obtain ⟨a, rfl, _⟩ := id hi
    obtain ⟨items, hp, hitems, hn⟩ := hi.exists_nested
    have hndim := Descriptor.not_ndim_nested_le_one info element extent
    obtain ⟨depth, rfl, hdepths⟩ := Value.exists_depth_of_nested hp hdepth
    have hitem : ∀ i x, items[i]? = some x →
        (itemAt (.nested info element extent) a i >>= traverseValue t walker visit depth) =
          forM (x.leaves : List (Leaf ι)) (Leaf.visited t walker visit) := by
      intro i x hx
      have hmem := List.mem_of_getElem? hx
      rw [itemAt_of_nested ht hd hp hx, pure_bind]
      exact ih (ht.registered_component hd rfl) (hitems x hmem) (hdepths x hmem)
    rw [Value.leaves_of_nested hp, forM_inside, forM_flatMap, ← forM_range hitem, traverseValue,
      TypeTable.descriptor_of_type_eq hd hi.type_eq]
    simp [Descriptor.isTensor, hndim, Descriptor.lengthOf_of_nested ht hd hp hn, TypeTable.nodeName]
  | tensor info backing ih =>
    obtain ⟨a, rfl, _⟩ := id hi
    obtain ⟨b, shape, hp, _⟩ := hi.exists_tensor
    rw [Value.leaves_of_tensor hp, traverseValue, TypeTable.descriptor_of_type_eq hd hi.type_eq]
    simp [Descriptor.isTensor, Descriptor.tensorParts_of_tensor hp, Leaf.visited, Leaf.frames,
      Leaf.value, framedAll, TypeTable.nodeName]

theorem traverseAll_eq (xs : List (Tree ι)) :
    traverseAll t walker visit xs = forM xs (traverse t walker visit) := by
  induction xs with
  | nil => rfl
  | cons x xs ih => rw [traverseAll, ih, List.forM_cons]

theorem traverseEntries_eq (entries : List (String × Tree ι)) :
    traverseEntries t walker visit entries =
      forM (entries.map Prod.snd) (traverse t walker visit) := by
  induction entries with
  | nil => rfl
  | cons e entries ih => rw [traverseEntries, ih, List.map_cons, List.forM_cons]

theorem traverse_of_node {x : Tree ι} (hx : x.value? = none) :
    traverse t walker visit x =
      framed (.walk walker [t.nodeName x]) (forM x.children (traverse t walker visit)) := by
  cases x with
  | value v => cases hx
  | list items => rw [traverse, traverseAll_eq]; rfl
  | tuple items => rw [traverse, traverseAll_eq]; rfl
  | map entries => rw [traverse, traverseEntries_eq]; rfl
  | record m values => rw [traverse, traverseAll_eq]; rfl
  | foreign x => rfl
  | empty => rfl

/-- The walk over a well-formed tree is the walk over its leaves. -/
theorem traverse_eq (ht : t.Regular) {x : Tree ι} (hx : x.WellFormed t) :
    traverse t walker visit x = forM x.leaves (Leaf.visited t walker visit) := by
  induction hx with
  | @value v h =>
    rw [traverse, Tree.leaves]
    cases v with
    | scalar s => rfl
    | array a =>
      obtain ⟨d, hd, hi⟩ := h.exists_isInstance
      exact traverseValue_eq ht hd hi le_rfl
  | @node x hx _ _ ih =>
    rw [traverse_of_node hx, Tree.leaves_of_node hx, forM_inside, forM_flatMap, forM_congr ih]

/-! ## Visits of leaves -/

section Visits

variable {ls before after : List (Leaf ι)} {l : Leaf ι} {s s₁ s₂ : σ}

theorem forM_visited_of_passes (h : Passes visit (ls.map Leaf.value) s s₁) :
    (forM ls (Leaf.visited t walker visit) : Walk σ Unit).runFrom s = (.ok (), s₁) := by
  induction ls generalizing s with
  | nil =>
    cases h
    rfl
  | cons l ls ih =>
    cases h with
    | cons hl hs =>
      rename_i s'
      have hvisited : (l.visited t walker visit).runFrom s = (.ok (), s') := by
        rw [Leaf.visited, runFrom_framedAll, hl]
        rfl
      rw [List.forM_cons, runFrom_bind_of_ok hvisited, ih hs]

theorem forM_visited_of_error (h : Passes visit (before.map Leaf.value) s s₁)
    {e : DispatchError} (he : (visit l.value).runFrom s₁ = (.error e, s₂)) (after : List (Leaf ι)) :
    (forM (before ++ l :: after) (Leaf.visited t walker visit) : Walk σ Unit).runFrom s =
      (.error (e.through (l.frames t walker)), s₂) := by
  have hvisited : (l.visited t walker visit).runFrom s₁ =
      (.error (e.through (l.frames t walker)), s₂) := by
    rw [Leaf.visited, runFrom_framedAll, he]
    rfl
  rw [List.forM_append, runFrom_bind_of_ok (forM_visited_of_passes h), List.forM_cons,
    runFrom_bind_of_error hvisited]

end Visits

/-- The walk over a tree visits its leaves in depth-first order, once each: all of them if the
callback succeeds on each in turn, and then the walk succeeds; otherwise those up to the first one
on which it fails. That failure then escapes from every node on the way from the leaf up to the
root, and is the result. The noting callback shows what the callback has been given. -/
theorem traverse_leaves {r : Registry} (hr : r.Built) (ha : r.types.StockAccess) {x : Tree ι}
    (hx : x.WellFormed r.types) (walker : String) (visit : Value → Walk σ Unit) (s : σ)
    (seen : List Value) :
    let walk := traverse r.types walker visit x
    let noting := traverse r.types walker (noted visit) x
    (∃ s', Passes visit (x.leaves.map Leaf.value) s s' ∧
        walk.runFrom s = (.ok (), s') ∧
        noting.runFrom (seen, s) = (.ok (), seen ++ x.leaves.map Leaf.value, s')) ∨
      ∃ before l after s₁ s₂ e, x.leaves = before ++ l :: after ∧
        Passes visit (before.map Leaf.value) s s₁ ∧
        (visit l.value).runFrom s₁ = (.error e, s₂) ∧
        walk.runFrom s = (.error (e.through (l.frames r.types walker)), s₂) ∧
        noting.runFrom (seen, s) =
          (.error (e.through (l.frames r.types walker)),
            seen ++ (before ++ [l]).map Leaf.value, s₂) := by
  have ht : r.types.Regular := ⟨hr.sound, ha⟩
  simp only [traverse_eq ht hx]
  rcases passes_or_fails visit (x.leaves.map Leaf.value) s with
    ⟨s', hs'⟩ | ⟨befores, v, afters, s₁, s₂, e, hsplit, hs₁, he⟩
  · exact .inl ⟨s', hs', forM_visited_of_passes hs', forM_visited_of_passes (hs'.noted seen)⟩
  · obtain ⟨before, rest, hleaves, rfl, hrest⟩ := List.map_eq_append_iff.mp hsplit
    obtain ⟨l, after, rfl, rfl, rfl⟩ := List.map_eq_cons_iff.mp hrest
    have hnoted : (noted visit l.value).runFrom (seen ++ before.map Leaf.value, s₁) =
        (.error e, seen ++ (before ++ [l]).map Leaf.value, s₂) := by
      simp [he]
    rw [hleaves]
    exact .inr ⟨before, l, after, s₁, s₂, e, rfl, hs₁, he, forM_visited_of_error hs₁ he after,
      forM_visited_of_error (hs₁.noted seen) hnoted after⟩

/-- The foreign types of a program that tags its trees. -/
inductive Stock.Tags where
  | tag
deriving DecidableEq

instance : ForeignTypes Stock.Tags where
  name _ := "Tag"
  Content _ := String
  text := Quoted.quote
  equals s s' := s = s'

/-- Rows of booleans and an array of integers under two keys, before nodes without leaves. -/
def Stock.sampleTree (sizes : List (IntType.Word .int32)) (rows : List (List Bool)) : Tree Tags :=
  .list [.ofEntries [("sizes", .value (integerArray ⟨[0]⟩ sizes)),
    ("rows", .value (booleanRows ⟨[1]⟩ rows))], .foreign ⟨.tag, "new"⟩, .empty]

theorem Stock.wellFormed_sampleTree (sizes : List (IntType.Word .int32)) {rows : List (List Bool)}
    (h : rows.length = 3) : (sampleTree sizes rows).WellFormed registry.types := by
  have hregistered : registry.types.Registered booleanRowsType := rfl
  have hsizes : registry.types.WellFormed (integerArray ⟨[0]⟩ sizes) :=
    .of_isInstance registered_integers (isInstance_integerArray _ _)
  have hrows : registry.types.WellFormed (booleanRows ⟨[1]⟩ rows) :=
    .of_isInstance hregistered (isInstance_booleanRows _ h)
  refine .node rfl trivial ?_
  simp only [Tree.children, sampleTree, List.forall_mem_cons]
  refine ⟨.ofEntries ?_, .node rfl trivial (List.forall_mem_nil _),
    .node rfl trivial (List.forall_mem_nil _), List.forall_mem_nil _⟩
  simp only [List.forall_mem_cons]
  exact ⟨.value hsizes, .value hrows, List.forall_mem_nil _⟩

/-- A callback that is refused after as many leaves as its state says. -/
def Walk.rationed (_ : Value) : Walk ℕ Unit
  | 0 => (.error (.ofCause (.kernel (.refused "no more"))), 0)
  | n + 1 => (.ok (), n)

/-- The third row is refused, inside of the array of rows, the mapping and the list. -/
theorem traverse_leaves_rationed :
    let x := Stock.sampleTree [3] [[true], [false, true], []]
    let walk := traverse Stock.registry.types "count" rationed x
    (walk.runFrom 2).1 = .error ⟨.kernel (.refused "no more"),
        [.walk "count" ["BoolX"], .walk "count" ["Array3bX"], .walk "count" ["dict"],
          .walk "count" ["list"]]⟩ ∧
      ∃ before l after s₁ s₂ e, x.leaves = before ++ l :: after ∧
        Passes rationed (before.map Leaf.value) 2 s₁ ∧
        (rationed l.value).runFrom s₁ = (.error e, s₂) ∧
        walk.runFrom 2 = (.error (e.through (l.frames Stock.registry.types "count")), s₂) := by
  intro x walk
  have hx : x.WellFormed Stock.registry.types := Stock.wellFormed_sampleTree _ rfl
  refine ⟨by decide +kernel, ?_⟩
  rcases traverse_leaves Stock.built_registry Stock.stockAccess_registry hx "count" rationed 2 []
    with
    ⟨s', _, hwalk, _⟩ | ⟨before, l, after, s₁, s₂, e, hsplit, hpasses, he, hwalk, _⟩
  · have hfails : (walk.runFrom 2).1.isOk = false := by decide +kernel
    rw [show walk.runFrom 2 = (.ok (), s') from hwalk] at hfails
    cases hfails
  · exact ⟨before, l, after, s₁, s₂, e, hsplit, hpasses, he, hwalk⟩

end ArrayDispatch
