import ArrayDispatch.Proofs.Dispatch.WellFormed
import ArrayDispatch.Proofs.Stock.Lawful

/-!
Sequences of calls. The values that they start from are well-formed, and so is whatever calls on
well-formed values return and leave behind.
-/

namespace ArrayDispatch

namespace TypeTable

variable {t : TypeTable} {site : Site} {key : TypeKey} {p q : Payload} {v : Value} {d : Descriptor}

/-! ## Accepted values -/

theorem registered_of_descriptor? (ht : t.Sound) (hlen : t.types.length ≤ 0x100000000)
    (h : t.descriptor? key = some d) : t.Registered d ∧ d.key = key := by
  have hlt := (List.getElem?_eq_some_iff.mp h).1
  have hd : d.key = key := (ht.placed key.index d (by omega) h).key_eq
  exact ⟨by rwa [Registered, hd], hd⟩

/-- Payloads are checked one level deep, so their items have to be well-formed. -/
theorem holds_of_checked (ht : t.Regular) (hlen : t.types.length ≤ 0x100000000)
    (hp : ∀ u ∈ p.items?.getD [], t.WellFormed u) (h : t.checked key p = .ok q) :
    q = p ∧ ∃ d, t.Registered d ∧ d.key = key ∧ d.Holds p := by
  obtain ⟨d, hd, h⟩ := bind_eq_ok_iff.mp h
  obtain ⟨hreg, hdkey⟩ := registered_of_descriptor? ht.sound hlen (descriptor_eq_ok_iff.mp hd)
  split at h
  · cases h
  · rename_i hfits
    have hfits : fits d p = true := by simpa using hfits
    have hlength : q = p ∧ d.extent.Admits p.length := by
      split at h
      · rename_i n he
        split at h
        · cases h
          exact ⟨rfl, he ▸ by assumption⟩
        · cases h
      · rename_i he
        cases h
        exact ⟨rfl, he ▸ trivial⟩
    obtain ⟨rfl, hadm⟩ := hlength
    refine ⟨rfl, d, hreg, hdkey, ?_⟩
    cases d with
    | flat info kind extent =>
      cases q with
      | flat b => exact ⟨by simpa [fits, Payload.kind?] using hfits, hadm⟩
      | nested items => cases hfits
      | tensor a shape => cases hfits
    | nested info element extent =>
      cases q with
      | flat b => cases hfits
      | nested items =>
        refine ⟨fun u hu => ?_, hadm⟩
        have htype : u.type? = some element.key := by
          simpa using List.all_eq_true.mp hfits u hu
        exact isInstance_of_type? (ht.registered_component hreg rfl) (hp u hu) htype
      | tensor a shape => cases hfits
    | tensor info backing => cases hfits

theorem wellFormed_of_array (ht : t.Regular) (hlen : t.types.length ≤ 0x100000000)
    (hp : ∀ u ∈ p.items?.getD [], t.WellFormed u) (h : t.array site key p = .ok v) :
    t.WellFormed v := by
  obtain ⟨q, hq, h⟩ := bind_eq_ok_iff.mp h
  cases h
  obtain ⟨rfl, d, hd, hdkey, hholds⟩ := holds_of_checked ht hlen hp hq
  exact .of_isInstance hd ⟨_, rfl, hdkey.symm, hholds⟩

theorem wellFormed_of_tensor (ht : t.Regular) (hlen : t.types.length ≤ 0x100000000)
    (hp : ∀ u ∈ p.items?.getD [], t.WellFormed u) {shape : List Nat}
    (h : t.tensor site key p shape = .ok v) : t.WellFormed v := by
  obtain ⟨d, hd, h⟩ := bind_eq_ok_iff.mp h
  obtain ⟨hreg, hdkey⟩ := registered_of_descriptor? ht.sound hlen (descriptor_eq_ok_iff.mp hd)
  cases d with
  | flat info kind extent => cases h
  | nested info element extent => cases h
  | tensor info backing =>
    have hb := ht.registered_component hreg rfl
    obtain ⟨q, hq, hbody⟩ := bind_eq_ok_iff.mp h
    obtain ⟨rfl, e, he, hekey, hholds⟩ := holds_of_checked ht hlen hp hq
    obtain rfl := eq_of_key_eq hb he hekey
    obtain ⟨n, hn, hbody⟩ := bind_eq_ok_iff.mp hbody
    obtain ⟨hfits, rfl⟩ := Shape.count_eq_ok_iff.mp hn
    split at hbody
    · rename_i hsize
      cases hbody
      exact .of_isInstance hreg ⟨_, rfl, hdkey.symm, ⟨rfl, hholds⟩, hsize, hfits⟩
    · cases hbody

end TypeTable

/-! ## Sequences of calls -/

/-- The value that a call has returned, if any, and the operands that it has left behind. -/
def Outcome.values (o : Outcome) : List Value :=
  match o.result with
  | .ok (.value v) => v :: o.operands
  | _ => o.operands

theorem Outcome.Keeps.values {t : TypeTable} {o : Outcome} (h : o.Keeps t t.WellFormed) :
    ∀ v ∈ o.values, t.WellFormed v := by
  intro v hv
  unfold Outcome.values at hv
  split at hv
  · rename_i w hw
    rcases List.mem_cons.mp hv with rfl | hv
    · exact h.value v hw
    · exact h.operands v hv
  · exact h.operands v hv

/-- The values that a run has met: scalars, arrays and tensors that the registry has accepted, and
what calls on such values have returned and left behind. The operands of a call with one identity
are one object, and a call makes its objects at a place that is new to its operands. -/
inductive Session (r : Registry) : List Value → Prop
  | start : Session r []
  | scalar {vs : List Value} (h : Session r vs) (s : Scalar) : Session r (.scalar s :: vs)
  | array {vs : List Value} (h : Session r vs) {site : Site} {key : TypeKey} {p : Payload}
      {v : Value} (hp : ∀ u ∈ p.items?.getD [], u ∈ vs) (hv : r.types.array site key p = .ok v) :
      Session r (v :: vs)
  | tensor {vs : List Value} (h : Session r vs) {site : Site} {key : TypeKey} {p : Payload}
      {shape : List Nat} {v : Value} (hp : ∀ u ∈ p.items?.getD [], u ∈ vs)
      (hv : r.types.tensor site key p shape = .ok v) : Session r (v :: vs)
  | apply {vs operands : List Value} (h : Session r vs) {c : Call} (hc : c.Proper)
      (ho : operands ⊆ vs) {site : Site} (hh : Handles site operands) (held : List Value) :
      Session r ((r.apply c held site operands).values ++ vs)
  | applyTensor {vs operands : List Value} (h : Session r vs) {c : Call} (hc : c.Proper)
      (ho : operands ⊆ vs) {site : Site} (hh : Handles site operands) (held : List Value) :
      Session r ((r.applyTensor c held site operands).values ++ vs)

/-- In the registry of the stock types, every value that a sequence of calls of any length returns
or leaves behind is well-formed: its payload has the layout and the extent of its type, and so have
the arrays inside it; the flat array of a tensor has as many elements as its shape. This holds of
operands that a failed call in place has changed in part as well. -/
theorem session_wellFormed {vs : List Value} (h : Session Stock.registry vs) :
    ∀ v ∈ vs, Stock.registry.types.WellFormed v := by
  have ht : Stock.registry.types.Regular :=
    ⟨Stock.built_registry.sound, Stock.stockAccess_registry⟩
  have hlen : Stock.registry.types.types.length ≤ 0x100000000 := by
    rw [Stock.types_registry]
    decide
  have hl := Stock.lawful_registry
  have hu : Stock.registry.unifier = .promote := rfl
  induction h with
  | start => simp
  | scalar _ s ih => exact List.forall_mem_cons.mpr ⟨trivial, ih⟩
  | array _ hp hv ih =>
    refine List.forall_mem_cons.mpr ⟨?_, ih⟩
    exact TypeTable.wellFormed_of_array ht hlen (fun u hu => ih u (hp u hu)) hv
  | tensor _ hp hv ih =>
    refine List.forall_mem_cons.mpr ⟨?_, ih⟩
    exact TypeTable.wellFormed_of_tensor ht hlen
      (fun u hu => ih u (hp u hu)) hv
  | apply _ hc ho hh held ih =>
    have hkeeps := Registry.apply_keeps ht hl hu hc (fun v hv => ih v (ho hv)) hh held
    exact List.forall_mem_append.mpr ⟨hkeeps.values, ih⟩
  | applyTensor _ hc ho hh held ih =>
    have hkeeps := Registry.applyTensor_keeps ht hl hu hc (fun v hv => ih v (ho hv)) hh held
    exact List.forall_mem_append.mpr ⟨hkeeps.values, ih⟩

/-- A division in place that fails at its second position, with the first quotient stored. -/
theorem session_wellFormed_divided :
    let x := Stock.integerArray ⟨[0]⟩ [6, 6, 6]
    let y := Stock.integerArray ⟨[1]⟩ [2, 0, 1]
    let o := Stock.registry.apply ⟨.inPlace, .floordiv, .method⟩ [] ⟨[2]⟩ [x, y]
    o.result = .error ⟨.kernel .divisionByZero, [.element 1, .method "Int32X" .floordiv]⟩ ∧
      o.operands = [Stock.integerArray ⟨[0]⟩ [3, 6, 6], y] ∧
      Session Stock.registry (o.values ++ [y, x]) ∧
      ∀ v ∈ o.values ++ [y, x], Stock.registry.types.WellFormed v := by
  intro x y o
  have haccepted : ∀ {vs : List Value}, Session Stock.registry vs → ∀ id xs,
      Session Stock.registry (Stock.integerArray ⟨[id]⟩ xs :: vs) := by
    intro vs h id xs
    have hv : Stock.registry.types.array ⟨[id]⟩ Stock.int32X (.flat ⟨.integer .int32, xs⟩) =
        .ok (Stock.integerArray ⟨[id]⟩ xs) := rfl
    exact .array h (fun u hu => by cases hu) hv
  have hstart : Session Stock.registry [y, x] :=
    haccepted (haccepted .start 0 [6, 6, 6]) 1 [2, 0, 1]
  have hop : Op.floordiv ≠ .richcmp := by decide
  have hh : Handles ⟨[2]⟩ [x, y] := by
    refine ⟨fun v hv w hw hsame => ?_, fun v hv id hid => ?_⟩
    · simp only [List.mem_cons, List.not_mem_nil, or_false] at hv hw
      rcases hv with rfl | rfl <;> rcases hw with rfl | rfl
      · rfl
      · cases hsame
      · cases hsame
      · rfl
    · simp only [List.mem_cons, List.not_mem_nil, or_false] at hv
      rcases hv with rfl | rfl <;>
      · rw [List.mem_singleton.mp hid]
        decide
  have hsession : Session Stock.registry (o.values ++ [y, x]) :=
    hstart.apply (.inPlace hop) (by simp) hh []
  exact ⟨rfl, rfl, hsession, session_wellFormed hsession⟩

end ArrayDispatch
