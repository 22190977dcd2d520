import ArrayDispatch.Proofs.Tree.Leaves

/-!
Outlines of trees: what two trees have to agree on to be walked in step. An outline leaves out the
contents and the identities of all arrays.
-/

namespace ArrayDispatch

/-- What a node shows of itself. Values show their runtime type. -/
inductive Head (ι : Type) where
  | value (tag : TypeTag)
  | list
  | tuple
  | map (keys : List String)
  | record (m : Manifest)
  | foreign (type : ι)
  | empty

inductive Outline (ι : Type) where
  | node (head : Head ι) (below : List (Outline ι))

variable {ι : Type}

/-- The outline of a node other than an array of arrays has no outlines below it. -/
def Outline.bare (head : Head ι) : Outline ι := node head []

/-! ## Values -/

mutual

/-- Outline of a value: its own type, and the outlines of the elements of an array of arrays. -/
def Value.outline : Value → Outline ι
  | .scalar s => .bare (.value (.scalar s.kind))
  | .array a => a.outline

def Object.outline : Object → Outline ι
  | ⟨_, type, p⟩ => .node (.value (.array type)) p.outlines

def Payload.outlines : Payload → List (Outline ι)
  | .nested items => Value.outlinesOf items
  | _ => []

def Value.outlinesOf : List Value → List (Outline ι)
  | [] => []
  | v :: vs => v.outline :: Value.outlinesOf vs

end

theorem Value.outlinesOf_eq_map (vs : List Value) :
    (Value.outlinesOf vs : List (Outline ι)) = vs.map outline := by
  induction vs with
  | nil => rfl
  | cons v vs ih => rw [outlinesOf, ih, List.map_cons]

theorem Value.outline_eq_node (v : Value) :
    ∃ below, (v.outline : Outline ι) = .node (.value v.tag) below := by
  cases v with
  | scalar s => exact ⟨[], rfl⟩
  | array a =>
    obtain ⟨id, type, p⟩ := a
    exact ⟨p.outlines, rfl⟩

theorem Value.tag_eq_of_outline_eq {v w : Value} (h : (v.outline : Outline ι) = w.outline) :
    v.tag = w.tag := by
  obtain ⟨below, hv⟩ := v.outline_eq_node (ι := ι)
  obtain ⟨below', hw⟩ := w.outline_eq_node (ι := ι)
  rw [hv, hw] at h
  injection h with h
  injection h

section Value

variable {a : Object}

theorem Value.outline_of_flat {b : Buffer} (h : a.payload = .flat b) :
    ((Value.array a).outline : Outline ι) = .bare (.value (.array a.type)) := by
  obtain ⟨id, type, p⟩ := a
  cases h
  rfl

theorem Value.outline_of_nested {items : List Value} (h : a.payload = .nested items) :
    ((Value.array a).outline : Outline ι) =
      .node (.value (.array a.type)) (items.map outline) := by
  obtain ⟨id, type, p⟩ := a
  cases h
  rw [outline, Object.outline, Payload.outlines, outlinesOf_eq_map]
  rfl

theorem Value.outline_of_tensor {backing : Object} {shape : List Nat}
    (h : a.payload = .tensor backing shape) :
    ((Value.array a).outline : Outline ι) = .bare (.value (.array a.type)) := by
  obtain ⟨id, type, p⟩ := a
  cases h
  rfl

end Value

/-! ## Trees -/

namespace Tree

variable [ForeignTypes ι]

def head : Tree ι → Head ι
  | value v => .value v.tag
  | list _ => .list
  | tuple _ => .tuple
  | map entries => .map (entries.map Prod.fst)
  | record m _ => .record m
  | foreign x => .foreign x.type
  | empty => .empty

theorem value?_eq_none_of_head_eq {x y : Tree ι} (h : x.head = y.head) (hx : x.value? = none) :
    y.value? = none := by
  cases y with
  | value w =>
    cases x with
    | value v => cases hx
    | _ => cases h
  | _ => rfl

mutual

def outline : Tree ι → Outline ι
  | .value v => v.outline
  | .list items => .node .list (outlinesOf items)
  | .tuple items => .node .tuple (outlinesOf items)
  | .map entries => .node (.map (entries.map Prod.fst)) (entryOutlines entries)
  | .record m values => .node (.record m) (outlinesOf values)
  | .foreign x => .bare (.foreign x.type)
  | .empty => .bare .empty

def outlinesOf : List (Tree ι) → List (Outline ι)
  | [] => []
  | x :: xs => x.outline :: outlinesOf xs

def entryOutlines : List (String × Tree ι) → List (Outline ι)
  | [] => []
  | (_, x) :: rest => x.outline :: entryOutlines rest

end

theorem outlinesOf_eq_map (xs : List (Tree ι)) : outlinesOf xs = xs.map outline := by
  induction xs with
  | nil => rfl
  | cons x xs ih => rw [outlinesOf, ih, List.map_cons]

theorem entryOutlines_eq_map (entries : List (String × Tree ι)) :
    entryOutlines entries = (entries.map Prod.snd).map outline := by
  induction entries with
  | nil => rfl
  | cons e entries ih => rw [entryOutlines, ih, List.map_cons, List.map_cons]

theorem outline_of_node {x : Tree ι} (h : x.value? = none) :
    x.outline = .node x.head (x.children.map outline) := by
  cases x with
  | value v => cases h
  | list items => rw [outline, outlinesOf_eq_map, head, children]
  | tuple items => rw [outline, outlinesOf_eq_map, head, children]
  | map entries => rw [outline, entryOutlines_eq_map, head, children]
  | record m values => rw [outline, outlinesOf_eq_map, head, children]
  | foreign x => rfl
  | empty => rfl

theorem outline_eq_node (x : Tree ι) : ∃ below, x.outline = .node x.head below := by
  cases h : x.value? with
  | none => exact ⟨_, outline_of_node h⟩
  | some v =>
    cases x <;> cases h
    exact v.outline_eq_node

theorem head_eq_of_outline_eq {x y : Tree ι} (h : x.outline = y.outline) : x.head = y.head := by
  obtain ⟨below, hx⟩ := x.outline_eq_node
  obtain ⟨below', hy⟩ := y.outline_eq_node
  rw [hx, hy] at h
  injection h

end Tree

/-! ## What a callback is shown -/

variable [ForeignTypes ι]

variable (ι) in
def Value.shown (v : Value) : List Value := (v.leaves : List (Leaf ι)).map Leaf.value

theorem map_value_inside (node : Tree ι) (ls : List (Leaf ι)) :
    (ls.map (.inside node)).map Leaf.value = ls.map Leaf.value := by
  rw [List.map_map]
  rfl

section Value

variable {a : Object}

theorem Value.shown_of_flat {b : Buffer} (h : a.payload = .flat b) :
    (Value.array a).shown ι = [.array a] := by
  rw [shown, leaves_of_flat h]
  rfl

theorem Value.shown_of_nested {items : List Value} (h : a.payload = .nested items) :
    (Value.array a).shown ι = items.flatMap (shown ι) := by
  rw [shown, leaves_of_nested h, map_value_inside, List.map_flatMap]
  rfl

theorem Value.shown_of_tensor {backing : Object} {shape : List Nat}
    (h : a.payload = .tensor backing shape) : (Value.array a).shown ι = [.array backing] := by
  rw [shown, leaves_of_tensor h]
  rfl

end Value

def Tree.shown (x : Tree ι) : List Value := x.leaves.map Leaf.value

theorem Tree.shown_of_node {x : Tree ι} (h : x.value? = none) :
    x.shown = x.children.flatMap shown := by
  rw [shown, leaves_of_node h, map_value_inside, List.map_flatMap]
  rfl

end ArrayDispatch
