import ArrayDispatch.Proofs.Tree.Pair
import ArrayDispatch.Proofs.Value.Contents

/-!
Refilled trees: trees with the structure of another one and with new contents in its leaves. The
walk over a tree and its refilled one pairs every leaf with the one that stands in its place.
-/

namespace ArrayDispatch

open Walk

variable {ι : Type} [ForeignTypes ι]

/-! ## The same node over other trees -/

namespace Tree

variable {x : Tree ι} {ys : List (Tree ι)}

theorem value?_withChildren (hx : x.value? = none) (ys : List (Tree ι)) :
    (x.withChildren ys).value? = none := by
  cases x with
  | value v => cases hx
  | _ => rfl

theorem length_keys {entries : List (String × Tree ι)}
    (hlen : (map entries).children.length = ys.length) :
    (entries.map Prod.fst).length = ys.length := by
  rw [← hlen, children, List.length_map, List.length_map]

theorem head_withChildren (hlen : x.children.length = ys.length) :
    (x.withChildren ys).head = x.head := by
  cases x with
  | map entries =>
    rw [withChildren, head, head, List.map_fst_zip (length_keys hlen).le]
  | _ => rfl

theorem children_withChildren (hlen : x.children.length = ys.length) :
    (x.withChildren ys).children = ys := by
  cases x with
  | list xs => rfl
  | tuple xs => rfl
  | map entries =>
    rw [withChildren, children, List.map_snd_zip (length_keys hlen).ge]
  | record m xs => rfl
  | _ => exact (List.length_eq_zero_iff.mp hlen.symm).symm

theorem Tidy.withChildren (h : x.Tidy) (hlen : x.children.length = ys.length) :
    (x.withChildren ys).Tidy := by
  cases x with
  | map entries =>
    rw [Tree.withChildren, Tidy, List.map_fst_zip (length_keys hlen).le]
    exact h
  | record m xs => exact hlen.symm.trans h
  | _ => trivial

end Tree

/-! ## Refilled values and trees -/

section Refilled

variable (g : Object → Payload)

/-- The second value has the structure of the first, and holds in the place of every leaf an array
of the type of the leaf with the contents that `g` makes of it. Tensors keep their shape, and
scalars stay. The identities of the arrays are new ones. -/
inductive Value.Refilled : Value → Value → Prop
  | scalar (s : Scalar) : Refilled (.scalar s) (.scalar s)
  | flat {a : Object} {b : Buffer} (hp : a.payload = .flat b) (id : Site) :
    Refilled (.array a) (.array ⟨id, a.type, g a⟩)
  | nested {a : Object} {xs ys : List Value} (hp : a.payload = .nested xs) (id : Site)
      (hlen : xs.length = ys.length) (h : ∀ p ∈ xs.zip ys, Refilled p.1 p.2) :
    Refilled (.array a) (.array ⟨id, a.type, .nested ys⟩)
  | tensor {a b : Object} {shape : List ℕ} (hp : a.payload = .tensor b shape) (id id' : Site) :
    Refilled (.array a) (.array ⟨id, a.type, .tensor ⟨id', b.type, g b⟩ shape⟩)

/-- The second tree is the first over refilled values: containers keep their kind, their keys and
their record type, foreign values and empty places stay. -/
inductive Tree.Refilled : Tree ι → Tree ι → Prop
  | value {v w : Value} (h : v.Refilled g w) : Refilled (.value v) (.value w)
  | node {x : Tree ι} {ys : List (Tree ι)} (hx : x.value? = none)
      (hlen : x.children.length = ys.length) (h : ∀ p ∈ x.children.zip ys, Refilled p.1 p.2) :
    Refilled x (x.withChildren ys)

/-- A leaf beside the array that stands in its place. -/
def Leaf.Beside (l : Leaf ι) (p : Value × Value) : Prop :=
  ∃ id, p = (l.value, .array ⟨id, l.array.type, g l.array⟩)

end Refilled

variable {g : Object → Payload}

/-! ## The walk over a tree and a refilled one -/

section Walk

variable {σ : Type} {t : TypeTable} {walker : String} {visit : Value → Value → Walk σ Unit}

/-- The walk passes, in order, every leaf with an array beside it. -/
def Walk.PassesBeside (g : Object → Payload) (visit : Value → Value → Walk σ Unit)
    (ls : List (Leaf ι)) (w : Walk σ Unit) : Prop :=
  ∃ ps, List.Forall₂ (Leaf.Beside g) ls ps ∧ w = forM ps fun p => visit p.1 p.2

theorem Walk.PassesBeside.framed (hv : TotalPair visit) {ls : List (Leaf ι)} {w : Walk σ Unit}
    (h : PassesBeside g visit ls w) (node : Tree ι) (f : Frame) :
    PassesBeside g visit (ls.map (.inside node)) (framed f w) := by
  obtain ⟨ps, hps, rfl⟩ := h
  exact ⟨ps, List.forall₂_map_left_iff.mpr hps, hv.framed_forM f ps⟩

theorem Walk.PassesBeside.single (l : Leaf ι) (id : Site) :
    PassesBeside g visit [l] (visit l.value (.array ⟨id, l.array.type, g l.array⟩)) :=
  ⟨[(l.value, .array ⟨id, l.array.type, g l.array⟩)], .cons ⟨id, rfl⟩ .nil, by simp⟩

theorem Walk.PassesBeside.forM_zip {α : Type} {xs ys : List α} {leaves : α → List (Leaf ι)}
    {step : α × α → Walk σ Unit} (hlen : xs.length = ys.length)
    (h : ∀ p ∈ xs.zip ys, PassesBeside g visit (leaves p.1) (step p)) :
    PassesBeside g visit (xs.flatMap leaves)
      (sameLength xs.length ys.length >>= fun _ => forM (xs.zip ys) step) := by
  rw [sameLength, if_pos hlen, pure_bind]
  induction xs generalizing ys with
  | nil => exact ⟨[], .nil, rfl⟩
  | cons x xs ih =>
    cases ys with
    | nil => cases hlen
    | cons y ys =>
      obtain ⟨ps, hps, hstep⟩ := h (x, y) List.mem_cons_self
      obtain ⟨qs, hqs, hrest⟩ :=
        ih (Nat.succ.inj hlen) fun p hp => h p (List.mem_cons_of_mem _ hp)
      refine ⟨ps ++ qs, List.rel_append hps hqs, ?_⟩
      rw [List.zip_cons_cons, List.forM_cons, List.forM_append, hstep, hrest]

theorem passesBeside_traverseValues (ht : t.Regular) (hv : TotalPair visit) {d : Descriptor}
    (hd : t.Registered d) {v w : Value} (hi : d.IsInstance v) (h : v.Refilled g w) {depth : ℕ}
    (hdepth : v.depth ≤ depth) :
    PassesBeside g visit (v.leaves : List (Leaf ι)) (traverseValues t walker visit depth v w) := by
  induction h generalizing d depth with
  | scalar s =>
    obtain ⟨_, h, _⟩ := hi
    cases h
  | @flat a b hp id =>
    have hform := hi.form_eq
    cases d with
    | flat info kind extent =>
      have htype : (Object.mk id a.type (g a)).type = a.type := rfl
      rw [traverseValues_of_flat hd hi.type_eq htype, Value.leaves_of_flat hp]
      exact (PassesBeside.single ⟨a, []⟩ id).framed hv _ _
    | _ => rw [hp] at hform; cases hform
  | @nested a xs ys hp id hlen h ih =>
    have hform := hi.form_eq
    cases d with
    | nested info element extent =>
      obtain ⟨items, hitems, hinstances, hadmits⟩ := hi.exists_nested
      obtain rfl := Payload.nested.inj (hp.symm.trans hitems)
      obtain ⟨depth, rfl, hdepths⟩ := Value.exists_depth_of_nested hp hdepth
      have htype : (Object.mk id a.type (.nested ys)).type = a.type := rfl
      have hys : (Object.mk id a.type (.nested ys)).payload = .nested ys := rfl
      rw [traverseValues_of_nested ht hd hi.type_eq htype hp hys hadmits (hlen ▸ hadmits),
        Value.leaves_of_nested hp]
      refine (PassesBeside.forM_zip hlen fun p hp => ?_).framed hv _ _
      have hmem := (List.of_mem_zip hp).1
      exact ih p hp (ht.registered_component hd rfl) (hinstances _ hmem) (hdepths _ hmem)
    | _ => rw [hp] at hform; cases hform
  | @tensor a b shape hp id id' =>
    have hform := hi.form_eq
    cases d with
    | tensor info backing =>
      let out : Object := ⟨id, a.type, .tensor ⟨id', b.type, g b⟩ shape⟩
      have htype : out.type = a.type := rfl
      have hout : out.payload = .tensor ⟨id', b.type, g b⟩ shape := rfl
      rw [traverseValues_of_tensor hd hi.type_eq htype hp hout, Value.leaves_of_tensor hp]
      exact (PassesBeside.single ⟨b, []⟩ id').framed hv _ _
    | _ => rw [hp] at hform; cases hform

/-- The walk over a well-formed tree and a refilled one passes every leaf of the first with the
array in its place. -/
theorem passesBeside_traversePair (ht : t.Regular) (hv : TotalPair visit) {x y : Tree ι}
    (hx : x.WellFormed t) (h : x.Refilled g y) (walker : String) :
    PassesBeside g visit x.leaves (traversePair t walker visit x y) := by
  induction h with
  | @value v w h =>
    rw [traversePair, Tree.leaves]
    cases v with
    | scalar s =>
      cases h
      refine ⟨[], .nil, ?_⟩
      rw [traverseValues, if_neg (not_not_intro rfl)]
      · rfl
      · exact fun _ _ h => by cases h
    | array a =>
      obtain ⟨d, hd, hi⟩ := hx.of_value.exists_isInstance
      exact passesBeside_traverseValues ht hv hd hi h le_rfl
  | @node x ys hxv hlen _ ih =>
    obtain ⟨htx, hchildren⟩ := hx.of_node hxv
    rw [traversePair_of_head_eq hxv htx (htx.withChildren hlen) (Tree.head_withChildren hlen).symm,
      Tree.leaves_of_node hxv, Tree.children_withChildren hlen]
    exact (PassesBeside.forM_zip hlen fun p hp =>
      ih p hp (hchildren _ (List.of_mem_zip hp).1)).framed hv _ _

end Walk

/-! ## Contents whatever the identities -/

namespace Tree

mutual

/-- The tree with one identity for all its arrays. -/
def contents : Tree ι → Tree ι
  | .value v => .value v.contents
  | .list items => .list (contentsOf items)
  | .tuple items => .tuple (contentsOf items)
  | .map entries => .map (entryContents entries)
  | .record m values => .record m (contentsOf values)
  | .foreign x => .foreign x
  | .empty => .empty

def contentsOf : List (Tree ι) → List (Tree ι)
  | [] => []
  | x :: xs => x.contents :: contentsOf xs

def entryContents : List (String × Tree ι) → List (String × Tree ι)
  | [] => []
  | (k, x) :: rest => (k, x.contents) :: entryContents rest

end

theorem contentsOf_eq_map (xs : List (Tree ι)) : contentsOf xs = xs.map contents := by
  induction xs with
  | nil => rfl
  | cons x xs ih => rw [contentsOf, ih, List.map_cons]

theorem entryContents_eq_zip (entries : List (String × Tree ι)) :
    entryContents entries =
      (entries.map Prod.fst).zip ((entries.map Prod.snd).map contents) := by
  induction entries with
  | nil => rfl
  | cons e entries ih =>
    rw [entryContents, ih]
    rfl

theorem contents_of_node {x : Tree ι} (h : x.value? = none) :
    x.contents = x.withChildren (x.children.map contents) := by
  cases x with
  | value v => cases h
  | list items => rw [contents, contentsOf_eq_map, children, withChildren]
  | tuple items => rw [contents, contentsOf_eq_map, children, withChildren]
  | map entries => rw [contents, entryContents_eq_zip, children, withChildren]
  | record m values => rw [contents, contentsOf_eq_map, children, withChildren]
  | foreign x => rfl
  | empty => rfl

theorem withChildren_withChildren {x : Tree ι} {ys zs : List (Tree ι)}
    (hlen : x.children.length = ys.length) :
    (x.withChildren ys).withChildren zs = x.withChildren zs := by
  cases x with
  | map entries =>
    rw [withChildren, withChildren, withChildren, List.map_fst_zip (length_keys hlen).le]
  | _ => rfl

end Tree

/-! ### Equality looks at the contents only -/

namespace Tree

mutual

theorem contents_equals : ∀ x y : Tree ι, x.contents.equals y = x.equals y
  | .value v, y => by
    cases y with
    | value w => exact v.contents_equals w
    | _ => rfl
  | .list xs, y => by
    cases y with
    | list ys => exact contentsOf_allEqual xs ys
    | _ => rfl
  | .tuple xs, y => by
    cases y with
    | tuple ys => exact contentsOf_allEqual xs ys
    | _ => rfl
  | .map xs, y => by
    cases y with
    | map ys => exact entryContents_entriesEqual xs ys
    | _ => rfl
  | .record m xs, y => by
    cases y with
    | record n ys => rw [contents, equals, equals, contentsOf_allEqual]
    | _ => rfl
  | .foreign _, _ => rfl
  | .empty, _ => rfl

theorem contentsOf_allEqual :
    ∀ xs ys : List (Tree ι), allEqual (contentsOf xs) ys = allEqual xs ys
  | [], _ => rfl
  | _ :: _, [] => rfl
  | x :: xs, y :: ys => by
    rw [contentsOf, allEqual, allEqual, x.contents_equals, contentsOf_allEqual]

theorem entryContents_entriesEqual :
    ∀ xs ys : List (String × Tree ι), entriesEqual (entryContents xs) ys = entriesEqual xs ys
  | [], _ => rfl
  | _ :: _, [] => rfl
  | (j, x) :: xs, (k, y) :: ys => by
    rw [entryContents, entriesEqual, entriesEqual, x.contents_equals, entryContents_entriesEqual]

end

theorem equals_eq_of_contents_eq {x y : Tree ι} (h : y.contents = x.contents) (z : Tree ι) :
    y.equals z = x.equals z := by
  rw [← y.contents_equals, ← x.contents_equals, h]

end Tree

/-! ### Leaves refilled with their own contents -/

section Own

theorem map_eq_of_zip {α β : Type} {f : α → β} {xs ys : List α} (hlen : xs.length = ys.length)
    (h : ∀ p ∈ xs.zip ys, f p.2 = f p.1) : ys.map f = xs.map f := by
  have hall : List.Forall₂ (fun x y => f x = f y) xs ys :=
    List.forall₂_iff_zip.mpr ⟨hlen, fun hmem => (h _ hmem).symm⟩
  have heq : List.Forall₂ (· = ·) (xs.map f) (ys.map f) :=
    List.forall₂_map_left_iff.mpr (List.forall₂_map_right_iff.mpr hall)
  exact (List.forall₂_eq_eq_eq ▸ heq).symm

theorem Value.Refilled.contents_eq {v w : Value} (h : v.Refilled g w)
    (hg : ∀ l ∈ (v.leaves : List (Leaf ι)), g l.array = l.array.payload) :
    w.contents = v.contents := by
  induction h with
  | scalar s => rfl
  | @flat a b hp id =>
    rw [leaves_of_flat hp, List.forall_mem_singleton] at hg
    have hown : g a = a.payload := hg
    rw [hown]
    obtain ⟨id', type, p⟩ := a
    rfl
  | @nested a xs ys hp id hlen h ih =>
    have hitems : ys.map contents = xs.map contents := by
      refine map_eq_of_zip hlen fun p hmem => ih p hmem fun l hl => ?_
      refine hg (l.inside (.value (.array a))) ?_
      rw [leaves_of_nested hp]
      exact List.mem_map_of_mem (List.mem_flatMap.mpr ⟨p.1, (List.of_mem_zip hmem).1, hl⟩)
    obtain ⟨id', type, p⟩ := a
    cases hp
    simp only [contents, Object.contents, Object.type, Payload.contents, contentsOf_eq_map, hitems]
  | @tensor a b shape hp id id' =>
    rw [leaves_of_tensor hp, List.forall_mem_singleton] at hg
    have hown : g b = b.payload := hg
    rw [hown]
    obtain ⟨ida, type, p⟩ := a
    obtain ⟨idb, typeb, q⟩ := b
    cases hp
    rfl

theorem Tree.Refilled.contents_eq {x y : Tree ι} (h : x.Refilled g y)
    (hg : ∀ l ∈ x.leaves, g l.array = l.array.payload) : y.contents = x.contents := by
  induction h with
  | value h => exact congrArg Tree.value (h.contents_eq hg)
  | @node x ys hx hlen _ ih =>
    have hchildren : ys.map contents = x.children.map contents := by
      refine map_eq_of_zip hlen fun p hmem => ih p hmem fun l hl => ?_
      refine hg (l.inside x) ?_
      rw [leaves_of_node hx]
      exact List.mem_map_of_mem (List.mem_flatMap.mpr ⟨p.1, (List.of_mem_zip hmem).1, hl⟩)
    rw [contents_of_node hx, contents_of_node (value?_withChildren hx ys),
      children_withChildren hlen, withChildren_withChildren hlen, hchildren]

end Own

end ArrayDispatch
