import ArrayDispatch.Proofs.Types.Registration
import ArrayDispatch.Tree.Walk
import ArrayDispatch.Value.Depth
import Mathlib.Data.String.Basic

/-!
Leaves of trees in depth-first order, and well-formed trees. A leaf is a flat array or the backing
array of a tensor; it stands in the nodes on the way up to the root.
-/

namespace ArrayDispatch

variable {ι : Type} [ForeignTypes ι]

/-- A leaf of a tree, with the nodes it stands in: its own first, the root last. The backing array
of a tensor is no node. -/
structure Leaf (ι : Type) [ForeignTypes ι] where
  array : Object
  nodes : List (Tree ι)

namespace Leaf

def value (l : Leaf ι) : Value := .array l.array

/-- The leaf of a tree that has become a child of a node. -/
def inside (node : Tree ι) (l : Leaf ι) : Leaf ι := ⟨l.array, l.nodes ++ [node]⟩

/-- The frames that a failure on a leaf escapes from: one for each of its nodes, which names the
type of the node. -/
def frames (t : TypeTable) (walker : String) (l : Leaf ι) : List Frame :=
  l.nodes.map fun node => .walk walker [t.nodeName node]

theorem frames_inside (t : TypeTable) (walker : String) (node : Tree ι) (l : Leaf ι) :
    (l.inside node).frames t walker = l.frames t walker ++ [.walk walker [t.nodeName node]] := by
  simp [frames, inside]

end Leaf

/-! ## Leaves of values -/

mutual

/-- Leaves of a value: none of a scalar, those of the elements of an array of arrays. -/
def Value.leaves : Value → List (Leaf ι)
  | .scalar _ => []
  | .array a => a.leaves.map (.inside (.value (.array a)))

/-- Leaves of an array, apart from its own node. -/
def Object.leaves : Object → List (Leaf ι)
  | ⟨id, type, p⟩ => p.leaves ⟨id, type, p⟩

def Payload.leaves (own : Object) : Payload → List (Leaf ι)
  | .flat _ => [⟨own, []⟩]
  | .nested items => Value.leavesOf items
  | .tensor backing _ => [⟨backing, []⟩]

def Value.leavesOf : List Value → List (Leaf ι)
  | [] => []
  | v :: vs => v.leaves ++ Value.leavesOf vs

end

theorem Value.leavesOf_eq_flatMap (vs : List Value) :
    (Value.leavesOf vs : List (Leaf ι)) = vs.flatMap leaves := by
  induction vs with
  | nil => rfl
  | cons v vs ih => rw [leavesOf, ih, List.flatMap_cons]

section Value

variable {a : Object}

theorem Value.leaves_of_flat {b : Buffer} (h : a.payload = .flat b) :
    ((Value.array a).leaves : List (Leaf ι)) = [⟨a, [.value (.array a)]⟩] := by
  obtain ⟨id, type, p⟩ := a
  cases h
  rfl

theorem Value.leaves_of_nested {items : List Value} (h : a.payload = .nested items) :
    ((Value.array a).leaves : List (Leaf ι)) =
      (items.flatMap leaves).map (.inside (.value (.array a))) := by
  obtain ⟨id, type, p⟩ := a
  cases h
  rw [leaves, Object.leaves, Payload.leaves, leavesOf_eq_flatMap]

theorem Value.leaves_of_tensor {backing : Object} {shape : List Nat}
    (h : a.payload = .tensor backing shape) :
    ((Value.array a).leaves : List (Leaf ι)) = [⟨backing, [.value (.array a)]⟩] := by
  obtain ⟨id, type, p⟩ := a
  cases h
  rfl

end Value

/-! ## Trees by their children -/

namespace Tree

def children : Tree ι → List (Tree ι)
  | list items => items
  | tuple items => items
  | map entries => entries.map Prod.snd
  | record _ values => values
  | _ => []

/-- The same node over other trees, in the places of its children. -/
def withChildren (x : Tree ι) (cs : List (Tree ι)) : Tree ι :=
  match x with
  | list _ => list cs
  | tuple _ => tuple cs
  | map entries => map ((entries.map Prod.fst).zip cs)
  | record m _ => record m cs
  | x => x

mutual

/-- Leaves of a tree: those of its values, in the order of items, keys and fields. Foreign values
have none. -/
def leaves : Tree ι → List (Leaf ι)
  | .value v => v.leaves
  | .list items => (leavesOf items).map (.inside (.list items))
  | .tuple items => (leavesOf items).map (.inside (.tuple items))
  | .map entries => (entryLeaves entries).map (.inside (.map entries))
  | .record m values => (leavesOf values).map (.inside (.record m values))
  | .foreign _ => []
  | .empty => []

def leavesOf : List (Tree ι) → List (Leaf ι)
  | [] => []
  | x :: xs => x.leaves ++ leavesOf xs

def entryLeaves : List (String × Tree ι) → List (Leaf ι)
  | [] => []
  | (_, x) :: rest => x.leaves ++ entryLeaves rest

end

theorem leavesOf_eq_flatMap (xs : List (Tree ι)) : leavesOf xs = xs.flatMap leaves := by
  induction xs with
  | nil => rfl
  | cons x xs ih => rw [leavesOf, ih, List.flatMap_cons]

theorem entryLeaves_eq_flatMap (entries : List (String × Tree ι)) :
    entryLeaves entries = (entries.map Prod.snd).flatMap leaves := by
  induction entries with
  | nil => rfl
  | cons e entries ih => rw [entryLeaves, ih, List.map_cons, List.flatMap_cons]

theorem leaves_of_node {x : Tree ι} (h : x.value? = none) :
    x.leaves = (x.children.flatMap leaves).map (.inside x) := by
  cases x with
  | value v => cases h
  | list items => rw [leaves, leavesOf_eq_flatMap, children]
  | tuple items => rw [leaves, leavesOf_eq_flatMap, children]
  | map entries => rw [leaves, entryLeaves_eq_flatMap, children]
  | record m values => rw [leaves, leavesOf_eq_flatMap, children]
  | foreign x => rfl
  | empty => rfl

/-! ## Well-formed trees -/

/-- The keys of a mapping are in order and all different, and a record has one value per field. -/
def Tidy : Tree ι → Prop
  | map entries => (entries.map Prod.fst).Pairwise (· < ·)
  | record m values => values.length = m.fields.length
  | _ => True

/-- A tree whose nodes are tidy and whose values are well-formed. -/
inductive WellFormed (t : TypeTable) : Tree ι → Prop
  | value {v : Value} (h : t.WellFormed v) : WellFormed t (.value v)
  | node {x : Tree ι} (hx : x.value? = none) (ht : x.Tidy) (h : ∀ c ∈ x.children, WellFormed t c) :
      WellFormed t x

theorem WellFormed.of_value {t : TypeTable} {v : Value} (h : (Tree.value v : Tree ι).WellFormed t) :
    t.WellFormed v := by
  cases h with
  | value h => exact h
  | node hx _ _ => cases hx

theorem WellFormed.of_node {t : TypeTable} {x : Tree ι} (hx : x.value? = none)
    (h : x.WellFormed t) : x.Tidy ∧ ∀ c ∈ x.children, c.WellFormed t := by
  cases h with
  | value h => cases hx
  | node _ ht h => exact ⟨ht, h⟩

section Made

variable {t : TypeTable}

theorem mem_insertEntry {key : String} {x : Tree ι} {entries : List (String × Tree ι)}
    {e : String × Tree ι} (h : e ∈ insertEntry key x entries) : e = (key, x) ∨ e ∈ entries := by
  induction entries with
  | nil => simpa [insertEntry] using h
  | cons f entries ih =>
    simp only [insertEntry] at h
    split at h
    · simpa using h
    · split at h
      · rcases List.mem_cons.mp h with rfl | h
        · exact .inl rfl
        · exact .inr (List.mem_cons_of_mem f h)
      · rcases List.mem_cons.mp h with rfl | h
        · exact .inr (by simp)
        · exact (ih h).imp_right (List.mem_cons_of_mem f)

theorem pairwise_insertEntry {key : String} {x : Tree ι} {entries : List (String × Tree ι)}
    (h : entries.Pairwise (·.1 < ·.1)) : (insertEntry key x entries).Pairwise (·.1 < ·.1) := by
  induction entries with
  | nil => simp [insertEntry]
  | cons f entries ih =>
    obtain ⟨hf, hrest⟩ := List.pairwise_cons.mp h
    simp only [insertEntry]
    by_cases hlt : key < f.1
    · rw [if_pos hlt]
      refine List.pairwise_cons.mpr ⟨fun e he => ?_, h⟩
      rcases List.mem_cons.mp he with rfl | he
      · exact hlt
      · exact hlt.trans (hf e he)
    · rw [if_neg hlt]
      by_cases heq : key = f.1
      · rw [if_pos heq]
        exact List.pairwise_cons.mpr ⟨fun e he => heq ▸ hf e he, hrest⟩
      · rw [if_neg heq]
        refine List.pairwise_cons.mpr ⟨fun e he => ?_, ih hrest⟩
        rcases mem_insertEntry he with rfl | he
        · exact lt_of_le_of_ne (not_lt.mp hlt) (Ne.symm heq)
        · exact hf e he

/-- A mapping is well-formed if its entries are, in whatever order they are given. -/
theorem WellFormed.ofEntries {entries : List (String × Tree ι)}
    (h : ∀ e ∈ entries, e.2.WellFormed t) : (ofEntries entries).WellFormed t := by
  have hfold : ∀ acc : List (String × Tree ι), acc.Pairwise (·.1 < ·.1) →
      (∀ e ∈ acc, e.2.WellFormed t) →
      (map (entries.foldl (fun acc e => insertEntry e.1 e.2 acc) acc)).WellFormed t := by
    induction entries with
    | nil =>
      intro acc hsorted hacc
      refine .node rfl (List.pairwise_map.mpr hsorted) fun c hc => ?_
      obtain ⟨e, he, rfl⟩ := List.mem_map.mp hc
      exact hacc e he
    | cons f entries ih =>
      intro acc hsorted hacc
      refine ih (fun e he => h e (by simp [he])) _ (pairwise_insertEntry hsorted) fun e he => ?_
      rcases mem_insertEntry he with rfl | he
      · exact h f (by simp)
      · exact hacc e he
  exact hfold [] .nil (by simp)

theorem WellFormed.ofFields {m : Manifest} {values : List (Tree ι)} {x : Tree ι}
    (h : ofFields m values = .ok x) (hvs : ∀ c ∈ values, c.WellFormed t) : x.WellFormed t := by
  unfold Tree.ofFields at h
  split at h
  · rename_i hlen
    cases h
    exact .node rfl hlen hvs
  · cases h

end Made

end Tree

/-! ## Reading well-formed values -/

section Reading

variable {t : TypeTable} {d : Descriptor} {a : Object}

theorem Descriptor.IsInstance.exists_flat {info : TypeInfo} {kind : Kind} {extent : Extent}
    (hi : (flat info kind extent).IsInstance (.array a)) : ∃ b, a.payload = .flat b := by
  have hform := hi.form_eq
  cases hp : a.payload with
  | flat b => exact ⟨b, rfl⟩
  | nested items => simp [hp, form, Payload.form] at hform
  | tensor backing shape => simp [hp, form, Payload.form] at hform

theorem Descriptor.IsInstance.exists_nested {info : TypeInfo} {element : Descriptor}
    {extent : Extent} (hi : (nested info element extent).IsInstance (.array a)) :
    ∃ items, a.payload = .nested items ∧ (∀ v ∈ items, element.IsInstance v) ∧
      extent.Admits items.length := by
  have hholds := hi.holds
  cases hp : a.payload with
  | flat b => exact (hp ▸ hholds).elim
  | nested items =>
    rw [hp] at hholds
    exact ⟨items, rfl, hholds.1, hholds.2⟩
  | tensor backing shape => exact (hp ▸ hholds).elim

theorem Descriptor.IsInstance.exists_tensor {info : TypeInfo} {backing : Descriptor}
    (hi : (tensor info backing).IsInstance (.array a)) :
    ∃ b shape, a.payload = .tensor b shape ∧ backing.IsInstance (.array b) ∧
      Shape.count shape = .ok b.length := by
  have hholds := hi.holds
  cases hp : a.payload with
  | flat b => exact (hp ▸ hholds).elim
  | nested items => exact (hp ▸ hholds).elim
  | tensor b shape =>
    rw [hp] at hholds
    exact ⟨b, shape, rfl, isInstance_array.mpr hholds.1,
      Shape.count_eq_ok_iff.mpr ⟨hholds.2.2, hholds.2.1⟩⟩

theorem Descriptor.tensorParts_of_tensor {b : Object} {shape : List ℕ}
    (hp : a.payload = .tensor b shape) : d.tensorParts a = .ok (b, shape) := by
  rw [tensorParts, hp]
  rfl

theorem Value.exists_depth_of_nested {items : List Value} (hp : a.payload = .nested items) {n : ℕ}
    (h : (Value.array a).depth ≤ n) : ∃ k, n = k + 1 ∧ ∀ v ∈ items, v.depth ≤ k := by
  have hdepth : (Value.array a).depth = Value.depthOf items + 1 := by
    obtain ⟨id, type, p⟩ := a
    cases hp
    rfl
  refine ⟨n - 1, by omega, fun v hv => ?_⟩
  have hle := Value.depth_le_depthOf hv
  omega

end Reading

end ArrayDispatch
