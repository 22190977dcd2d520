import ArrayDispatch.Proofs.Value.Storage
import ArrayDispatch.Value.Identity
import Mathlib.Data.Set.Disjoint

/-!
Stores of objects. A value is a view of a store: every object that it reaches stands in the store
under its identity, with references to the objects inside it. A store shows at most one value
through a reference.
-/

namespace ArrayDispatch

/-- What stands for a value: a scalar itself, an array by its identity. -/
inductive Ref where
  | scalar (s : Scalar)
  | object (id : Site)

def Value.ref : Value → Ref
  | scalar s => .scalar s
  | array a => .object a.id

/-- Contents of one object, with references to others. -/
inductive Cell where
  | flat (b : Buffer)
  | nested (items : List Ref)
  | tensor (backing : Site) (shape : List Nat)

def Payload.cell : Payload → Cell
  | flat b => .flat b
  | nested items => .nested (items.map Value.ref)
  | tensor backing shape => .tensor backing.id shape

/-! ### What stands inside values -/

/-- Values that a payload refers to. -/
def Payload.parts : Payload → List Value
  | flat _ => []
  | nested items => items
  | tensor backing _ => [.array backing]

def Value.parts : Value → List Value
  | scalar _ => []
  | array a => a.payload.parts

/-- All arrays among the values `vs` are among `ws`. -/
def Value.Among (vs ws : List Value) : Prop :=
  ∀ a, .array a ∈ vs → .array a ∈ ws

namespace Payload

variable {p q : Payload} {i : Nat}

end Payload

namespace Value

variable {vs ws us : List Value}

theorem Among.trans (h : Among vs ws) (h' : Among ws us) : Among vs us :=
  fun a ha => h' a (h a ha)

theorem among_of_subset (h : vs ⊆ ws) : Among vs ws := fun _ ha => h ha

theorem Among.append (h : Among vs us) (h' : Among ws us) : Among (vs ++ ws) us :=
  fun a ha => (List.mem_append.mp ha).elim (h a) (h' a)

end Value

/-! ### Stores -/

structure Entry where
  type : TypeKey
  cell : Cell

def Object.entry (a : Object) : Entry := ⟨a.type, a.payload.cell⟩

/-- Objects by their identities. -/
def Store : Type := Site → Option Entry

mutual

/-- The objects that a value reaches stand in the store as the value has them. -/
def Store.Shows (σ : Store) : Value → Prop
  | .scalar _ => True
  | .array a => Store.ShowsObject σ a

def Store.ShowsObject (σ : Store) : Object → Prop
  | ⟨id, type, p⟩ => σ id = some ⟨type, p.cell⟩ ∧ Store.ShowsPayload σ p

def Store.ShowsPayload (σ : Store) : Payload → Prop
  | .flat _ => True
  | .nested items => Store.ShowsAll σ items
  | .tensor backing _ => Store.ShowsObject σ backing

def Store.ShowsAll (σ : Store) : List Value → Prop
  | [] => True
  | v :: vs => Store.Shows σ v ∧ Store.ShowsAll σ vs

end

namespace Store

variable {σ τ : Store} {v w : Value} {vs ws : List Value} {id : Site}

theorem showsAll_iff : σ.ShowsAll vs ↔ ∀ v ∈ vs, σ.Shows v := by
  induction vs with
  | nil => simp [ShowsAll]
  | cons v vs ih => simp [ShowsAll, ih]

theorem showsAll_append : σ.ShowsAll (vs ++ ws) ↔ σ.ShowsAll vs ∧ σ.ShowsAll ws := by
  simp only [showsAll_iff, List.forall_mem_append]

theorem ShowsAll.of_among (h : σ.ShowsAll ws) (hvs : Value.Among vs ws) : σ.ShowsAll vs := by
  rw [showsAll_iff] at h ⊢
  intro v hv
  cases v with
  | scalar s => trivial
  | array a => exact h _ (hvs a hv)

theorem showsPayload_iff {p : Payload} : σ.ShowsPayload p ↔ σ.ShowsAll p.parts := by
  cases p with
  | tensor backing shape => simp [ShowsPayload, Payload.parts, ShowsAll, Shows]
  | _ => rfl

theorem showsObject_iff {a : Object} :
    σ.ShowsObject a ↔ σ a.id = some a.entry ∧ σ.ShowsAll a.payload.parts := by
  obtain ⟨id, type, p⟩ := a
  exact and_congr Iff.rfl showsPayload_iff

theorem ShowsAll.parts (h : σ.ShowsAll vs) : σ.ShowsAll (vs.flatMap Value.parts) := by
  rw [showsAll_iff] at h ⊢
  intro v hv
  obtain ⟨w, hw, hv⟩ := List.mem_flatMap.mp hv
  cases w with
  | scalar s => cases hv
  | array a =>
    have ha : σ.ShowsObject a := h _ hw
    exact showsAll_iff.mp (showsObject_iff.mp ha).2 v hv

/-! ### What a view depends on -/

mutual

theorem shows_congr : ∀ v : Value, (∀ id ∈ v.ids, τ id = σ id) → σ.Shows v → τ.Shows v
  | .scalar _, _, _ => trivial
  | .array a, h, hv => showsObject_congr a h hv

theorem showsObject_congr :
    ∀ a : Object, (∀ id ∈ a.ids, τ id = σ id) → σ.ShowsObject a → τ.ShowsObject a
  | ⟨id, _, p⟩, h, ha =>
    ⟨(h id (by simp [Object.ids])).trans ha.1,
      showsPayload_congr p (fun i hi => h i (by simp [Object.ids, hi])) ha.2⟩

theorem showsPayload_congr :
    ∀ p : Payload, (∀ id ∈ p.ids, τ id = σ id) → σ.ShowsPayload p → τ.ShowsPayload p
  | .flat _, _, _ => trivial
  | .nested items, h, hp => showsAll_congr items h hp
  | .tensor backing _, h, hp => showsObject_congr backing h hp

theorem showsAll_congr :
    ∀ vs : List Value, (∀ id ∈ Value.idsOf vs, τ id = σ id) → σ.ShowsAll vs → τ.ShowsAll vs
  | [], _, _ => trivial
  | v :: vs, h, hvs =>
    ⟨shows_congr v (fun i hi => h i (by simp [Value.idsOf, hi])) hvs.1,
      showsAll_congr vs (fun i hi => h i (by simp [Value.idsOf, hi])) hvs.2⟩

end

mutual

/-- Every object that a value reaches stands in a store that shows the value. -/
theorem ne_none_of_shows : ∀ v : Value, σ.Shows v → ∀ id ∈ v.ids, σ id ≠ none
  | .scalar _, _, id, hid => by simp [Value.ids] at hid
  | .array a, hv, id, hid => ne_none_of_showsObject a hv id hid

theorem ne_none_of_showsObject : ∀ a : Object, σ.ShowsObject a → ∀ id ∈ a.ids, σ id ≠ none
  | ⟨i, _, p⟩, ha, id, hid => by
    simp only [Object.ids, List.mem_cons] at hid
    rcases hid with rfl | hid
    · simp [ha.1]
    · exact ne_none_of_showsPayload p ha.2 id hid

theorem ne_none_of_showsPayload : ∀ p : Payload, σ.ShowsPayload p → ∀ id ∈ p.ids, σ id ≠ none
  | .flat _, _, id, hid => by simp [Payload.ids] at hid
  | .nested items, hp, id, hid => ne_none_of_showsAll items hp id hid
  | .tensor backing _, hp, id, hid => ne_none_of_showsObject backing hp id hid

theorem ne_none_of_showsAll :
    ∀ vs : List Value, σ.ShowsAll vs → ∀ id ∈ Value.idsOf vs, σ id ≠ none
  | [], _, id, hid => by simp [Value.idsOf] at hid
  | v :: vs, hvs, id, hid => by
    simp only [Value.idsOf, List.mem_append] at hid
    rcases hid with hid | hid
    · exact ne_none_of_shows v hvs.1 id hid
    · exact ne_none_of_showsAll vs hvs.2 id hid

end

mutual

/-- A store shows at most one value through a reference. -/
theorem shows_unique : ∀ v w : Value, σ.Shows v → σ.Shows w → v.ref = w.ref → v = w
  | .scalar _, .scalar _, _, _, h => by cases h; rfl
  | .scalar _, .array _, _, _, h => by cases h
  | .array _, .scalar _, _, _, h => by cases h
  | .array a, .array b, hv, hw, h =>
    congrArg Value.array (showsObject_unique a b hv hw (Ref.object.inj h))

theorem showsObject_unique :
    ∀ a b : Object, σ.ShowsObject a → σ.ShowsObject b → a.id = b.id → a = b
  | ⟨i, t, p⟩, ⟨j, u, q⟩, ha, hb, h => by
    cases h
    have hentry := Option.some.inj (ha.1.symm.trans hb.1)
    cases congrArg Entry.type hentry
    cases showsPayload_unique p q ha.2 hb.2 (congrArg Entry.cell hentry)
    rfl

theorem showsPayload_unique :
    ∀ p q : Payload, σ.ShowsPayload p → σ.ShowsPayload q → p.cell = q.cell → p = q
  | .flat _, .flat _, _, _, h => by cases h; rfl
  | .nested xs, .nested ys, hp, hq, h =>
    congrArg Payload.nested (showsAll_unique xs ys hp hq (Cell.nested.inj h))
  | .tensor a s, .tensor b t, hp, hq, h => by
    obtain ⟨hid, rfl⟩ := Cell.tensor.inj h
    exact congrArg (Payload.tensor · s) (showsObject_unique a b hp hq hid)
  | .flat _, .nested _, _, _, h => by cases h
  | .flat _, .tensor .., _, _, h => by cases h
  | .nested _, .flat _, _, _, h => by cases h
  | .nested _, .tensor .., _, _, h => by cases h
  | .tensor .., .flat _, _, _, h => by cases h
  | .tensor .., .nested _, _, _, h => by cases h

theorem showsAll_unique : ∀ vs ws : List Value, σ.ShowsAll vs → σ.ShowsAll ws →
    vs.map Value.ref = ws.map Value.ref → vs = ws
  | [], [], _, _, _ => rfl
  | [], _ :: _, _, _, h => by cases h
  | _ :: _, [], _, _, h => by cases h
  | v :: vs, w :: ws, hv, hw, h => by
    obtain ⟨hvw, hrest⟩ := List.cons.inj h
    rw [shows_unique v w hv.1 hw.1 hvw, showsAll_unique vs ws hv.2 hw.2 hrest]

end

/-! ### Changes of a store -/

def empty : Store := fun _ => none

def set (σ : Store) (id : Site) (e : Option Entry) : Store := fun i => if i = id then e else σ i

@[simp] theorem set_self (σ : Store) (id : Site) (e : Option Entry) : σ.set id e id = e :=
  if_pos rfl

theorem set_of_ne (σ : Store) {i : Site} (e : Option Entry) (h : i ≠ id) : σ.set id e i = σ i :=
  if_neg h

theorem showsAll_set (h : σ.ShowsAll vs) (hid : id ∉ Value.idsOf vs) (e : Option Entry) :
    (σ.set id e).ShowsAll vs :=
  showsAll_congr vs (fun _ hi => σ.set_of_ne e (ne_of_mem_of_not_mem hi hid)) h

theorem shows_set_entry {a : Object} (h : σ.ShowsAll a.payload.parts)
    (hid : a.id ∉ Value.idsOf a.payload.parts) :
    (σ.set a.id (some a.entry)).Shows (.array a) :=
  showsObject_iff.mpr ⟨σ.set_self _ _, showsAll_set h hid _⟩

def Free (σ : Store) (S : Set Site) : Prop := ∀ id ∈ S, σ id = none

/-- `τ` is `σ` but for what stands at the sites `S`. -/
def AgreesOff (τ σ : Store) (S : Set Site) : Prop := ∀ id, id ∉ S → τ id = σ id

theorem Free.mono {S T : Set Site} (h : σ.Free T) (hS : S ⊆ T) : σ.Free S :=
  fun id hid => h id (hS hid)

theorem Free.set {S : Set Site} (h : σ.Free S) (hid : id ∉ S) (e : Option Entry) :
    (σ.set id e).Free S :=
  fun i hi => (σ.set_of_ne e (ne_of_mem_of_not_mem hi hid)).trans (h i hi)

theorem Free.not_mem_idsOf {S : Set Site} (h : σ.Free S) (hvs : σ.ShowsAll vs) (hid : id ∈ S) :
    id ∉ Value.idsOf vs :=
  fun hm => ne_none_of_showsAll vs hvs id hm (h id hid)

theorem AgreesOff.mono {S T : Set Site} (h : τ.AgreesOff σ S) (hS : S ⊆ T) : τ.AgreesOff σ T :=
  fun id hid => h id fun hm => hid (hS hm)

/-- What is stored at sites that were free changes no view. -/
theorem AgreesOff.showsAll {S : Set Site} (h : τ.AgreesOff σ S) (hfree : σ.Free S)
    (hvs : σ.ShowsAll vs) : τ.ShowsAll vs :=
  showsAll_congr vs (fun id hid => h id fun hm => hfree.not_mem_idsOf hvs hm hid) hvs

end Store

end ArrayDispatch
