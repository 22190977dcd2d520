import ArrayDispatch.Proofs.Dispatch.Bisimulation
import ArrayDispatch.Proofs.Dispatch.Promotion
import ArrayDispatch.Proofs.Dispatch.Related
import ArrayDispatch.Proofs.Dispatch.TensorElementwise
import ArrayDispatch.Proofs.Shape.Agreement
import ArrayDispatch.Proofs.Stock.Native
import ArrayDispatch.Proofs.Types.Relocation

/-!
Operations that commute on booleans and on integers commute through the whole dispatch. The order of
two operands decides which of them represents the call and at which site the other one is converted,
but neither the type that they are promoted to nor what comes of it.
-/

namespace ArrayDispatch

/-- The operations that commute on booleans and on integers. -/
inductive Op.Commutes : Op → Prop
  | add : Commutes .add
  | mul : Commutes .mul
  | minimum : Commutes .minimum
  | maximum : Commutes .maximum
  | and : Commutes .and
  | or : Commutes .or
  | xor : Commutes .xor

theorem Op.Commutes.arity_eq {op : Op} (h : op.Commutes) : op.arity = 2 := by
  cases h <;> rfl

/-- One result, or failures of one kind, whatever frames they have escaped from. -/
inductive Dispatched.SameOutcome {α : Type} : Dispatched α → Dispatched α → Prop
  | ok (a : α) : SameOutcome (.ok a) (.ok a)
  | error {e e' : DispatchError} (h : e.cause.ctorIdx = e'.cause.ctorIdx) :
      SameOutcome (.error e) (.error e')

namespace Dispatched

variable {α : Type} {x y : Dispatched α}

theorem SameOutcome.symm (h : SameOutcome x y) : SameOutcome y x := by
  cases h with
  | ok a => exact .ok a
  | error h => exact .error h.symm

theorem Corresponds.sameOutcome (h : Corresponds x y) : SameOutcome x y := by
  cases h with
  | ok a => exact .ok a
  | error h => exact .error h.kind_eq

theorem sameOutcome_self (x : Dispatched α) : SameOutcome x x :=
  (corresponds_self x).sameOutcome

end Dispatched

/-! ## Scalars -/

namespace IntType

variable (t : IntType) (x y : t.Word)

theorem toInt_injective : Function.Injective t.toInt :=
  Function.LeftInverse.injective t.ofInt_toInt

theorem minimum_comm : t.minimum x y = t.minimum y x := by
  unfold minimum
  split <;> split
  · omega
  · rfl
  · rfl
  · exact t.toInt_injective (by omega)

theorem maximum_comm : t.maximum x y = t.maximum y x := by
  unfold maximum
  split <;> split
  · omega
  · rfl
  · rfl
  · exact t.toInt_injective (by omega)

theorem binary_comm {op : Op} (hop : op.Commutes) : t.binary op x y = t.binary op y x := by
  cases hop with
  | add => exact congrArg _ (BitVec.add_comm x y)
  | mul => exact congrArg _ (BitVec.mul_comm x y)
  | minimum => exact congrArg _ (t.minimum_comm x y)
  | maximum => exact congrArg _ (t.maximum_comm x y)
  | and => exact congrArg _ (BitVec.and_comm x y)
  | or => exact congrArg _ (BitVec.or_comm x y)
  | xor => exact congrArg _ (BitVec.xor_comm x y)

end IntType

namespace Scalar

variable {op : Op} (hop : op.Commutes)

include hop

theorem onElems_comm {k : Kind} (hk : k.isFloat = false) (x y : k.Elem) :
    onElems op k x y = onElems op k y x := by
  cases k with
  | bool => cases hop <;> cases x <;> cases y <;> rfl
  | integer t => exact t.binary_comm x y hop
  | float f => cases hk

/-- Booleans and integers of any types commute: they are promoted to one kind, which is none of the
floats. -/
theorem eval_comm {x y : Scalar} (hx : x.kind.isFloat = false) (hy : y.kind.isFloat = false)
    (slot : Slot) : eval op slot [x, y] = eval op slot [y, x] := by
  have hk : (x.kind.promote y.kind).isFloat = false := by
    unfold Kind.promote
    split <;> assumption
  have hne : op ≠ .truediv := by
    rintro rfl
    cases hop
  have hbinary : binary op x y = binary op y x := by
    unfold binary
    simp only [hne, false_and, if_false]
    rw [Kind.promote_comm y.kind x.kind, onElems_comm hop hk]
  cases hop <;> exact hbinary

end Scalar

/-! ## Operands in either order -/

/-- Equal scalars that are no floats. -/
def Scalar.SameDiscrete (x y : Scalar) : Prop := x = y ∧ x.kind.isFloat = false

/-- Two operands, and the same in the other order. -/
inductive Swaps (d : Descriptor) : List Value → List Value → Prop
  | mk {a a' b b' : Value} (ha : d.Related Scalar.SameDiscrete a a')
      (hb : d.Related Scalar.SameDiscrete b b') : Swaps d [a, b] [b', a']

/-- What is agreed on, and how an agreement fails, does not depend on the order. -/
theorem OrderFree.corresponds {α : Type} {agree : List α → Attempt α} (h : OrderFree agree)
    {xs ys : List α} (hp : xs.Perm ys)
    (hkind : ∀ c c', agree xs = .error c → agree ys = .error c' → c.ctorIdx = c'.ctorIdx) :
    Dispatched.Corresponds (agree xs).lift (agree ys).lift := by
  cases hx : agree xs with
  | ok z =>
    rw [(h.perm hp z).mp hx]
    exact Dispatched.corresponds_self _
  | error c =>
    cases hy : agree ys with
    | ok z => cases hx.symm.trans ((h.perm hp z).mpr hy)
    | error c' => exact .error ⟨hkind c c' hx hy, rfl⟩

/-- A commuting operation cannot tell its operands from those in the other order. -/
theorem bisimulation_swaps {c : Call} (hop : c.op.Commutes) : c.Bisimulation Swaps where
  lengths hp h hl hl' := by
    obtain ⟨ha, hb⟩ := h
    obtain ⟨k, m, rfl, hk, hm⟩ := exists_pair_of_forall₂ hl
    obtain ⟨m', k', rfl, hm', hk'⟩ := exists_pair_of_forall₂ hl'
    rw [ha.length?_eq hp, hk] at hk'
    rw [hb.length?_eq hp, hm] at hm'
    cases hk'
    cases hm'
    refine orderFree_reconcileLengths.corresponds (.swap m k []) fun c c' hc hc' => ?_
    rw [((reconcileLengths_eq_error_iff (by simp)).mp hc).1,
      ((reconcileLengths_eq_error_iff (by simp)).mp hc').1]
    rfl
  scalars h hss hss' := by
    obtain ⟨ha, hb⟩ := h
    obtain ⟨x, y, rfl, hx, hy⟩ := exists_pair_of_forall₂ (List.forall₂_map_right_iff.mp hss)
    obtain ⟨y', x', rfl, hy', hx'⟩ := exists_pair_of_forall₂ (List.forall₂_map_right_iff.mp hss')
    obtain ⟨rfl, hkind⟩ := ha.scalars hx hx'
    obtain ⟨rfl, hkind'⟩ := hb.scalars hy hy'
    exact Scalar.eval_comm hop hkind hkind' c.slot
  elements hp h hws hws' := by
    obtain ⟨ha, hb⟩ := h
    obtain ⟨u, v, rfl, hu, hv⟩ := exists_pair_of_forall₂ hws
    obtain ⟨v', u', rfl, hv', hu'⟩ := exists_pair_of_forall₂ hws'
    exact ⟨ha.elements hp hu hu', hb.elements hp hv hv'⟩
  shapes h hs hs' := by
    obtain ⟨ha, hb⟩ := h
    obtain ⟨k, m, rfl, hk, hm⟩ := exists_pair_of_forall₂ hs
    obtain ⟨m', k', rfl, hm', hk'⟩ := exists_pair_of_forall₂ hs'
    rw [ha.shape?_eq, hk] at hk'
    rw [hb.shape?_eq, hm] at hm'
    cases hk'
    cases hm'
    exact Shape.orderFree_reconcile.corresponds (.swap m k []) fun c c' hc hc' =>
      Shape.kind_of_reconcile_perm (.swap m k []) hc hc'
  expanded hp h hpos hx hx' := by
    obtain ⟨ha, hb⟩ := h
    simp only [List.forall_mem_cons] at hpos
    obtain ⟨hposA, hposB, _⟩ := hpos
    obtain ⟨u, v, rfl, hu, hv⟩ := exists_pair_of_forall₂ hx
    obtain ⟨v', u', rfl, hv', hu'⟩ := exists_pair_of_forall₂ hx'
    exact ⟨ha.expanded hp hposA hu hu', hb.expanded hp hposB hv hv'⟩

namespace Registry

variable {r : Registry} {c : Call} (site : Site) {x y : Value} {d : Descriptor}

theorem apply_scalars_swap (hc : c.Proper) (hop : c.op.Commutes) {s u : Scalar}
    (hs : s.kind.isFloat = false) (hu : u.kind.isFloat = false) (held held' : List Value) :
    (r.apply c held site [.scalar s, .scalar u]).result =
      (r.apply c held' site [.scalar u, .scalar s]).result := by
  have htakes : c.Takes 2 := hc.takes hop.arity_eq.symm
  have h := r.apply_scalars_result [s, u] htakes held site
  have h' := r.apply_scalars_result [u, s] htakes held' site
  rw [← Scalar.eval_comm hop hs hu] at h'
  exact h.trans h'.symm

/-! ## Unification of two operands -/

/-- Operands are promoted one after the other. Those of one type are what promotion leaves. -/
theorem unified_of_target (hu : r.unifier = .promote) (hm : c.mode ≠ .select) {vs : List Value}
    (hvs : ∀ v ∈ vs, r.types.WellFormed v) (htarget : r.types.target vs = .ok d) :
    r.unified c site vs =
      match replaceInOrder (fun i => r.types.adapt ((site.child 1).child i) d.key) 0 vs with
      | (.ok _, us) => .ok us
      | (.error e, _) => .error (e.within (c.frame (r.types.typeName (c.representative vs)))) := by
  unfold unified
  cases hany : (vs.zip vs.tail).any fun p => p.1.tag ≠ p.2.tag with
  | false =>
    obtain ⟨w, hw, htype⟩ := TypeTable.exists_type?_of_target hvs htarget
    rw [TypeTable.replaceInOrder_of_type? fun v hv =>
      type?_of_tag_eq (tag_eq_of_any_eq_false hany hv hw) htype]
    rfl
  | true =>
    simp only [if_true, hu, Unifier.promote_eq hm, htarget]
    rfl

variable (hreg : r.types.Regular) (hl : r.types.Lawful) (hu : r.unifier = .promote)
  (hmode : c.mode = .normal) (hx : r.types.WellFormed x) (hy : r.types.WellFormed y)
  (htype : x.type? = some d.key) (htarget : r.types.target [x, y] = .ok d)
  (htarget' : r.types.target [y, x] = .ok d)

include hreg hl hu hmode hx hy htype htarget htarget'

/-- Two operands of which the first has the type that they are promoted to. In either order the
other one is converted with the same success, to arrays of the same contents. -/
theorem unified_swap (hkind : d.leafKind.isFloat = false) :
    (∃ (e : DispatchError) (f f' : Frame), r.unified c site [x, y] = .error (e.within f) ∧
      r.unified c site [y, x] = .error (e.within f')) ∨
      ∃ w w', r.unified c site [x, y] = .ok [x, w] ∧ r.unified c site [y, x] = .ok [w', x] ∧
        Fitting r.types c.mode d [x, w] ∧ Fitting r.types c.mode d [w', x] ∧
        Swaps d [x, w] [w', x] := by
  have hm : c.mode ≠ .select := by simp [hmode]
  have hd := TypeTable.registered_of_target (by simp [hx, hy]) htarget
  have huni := unified_of_target site hu hm (by simp [hx, hy]) htarget
  have huni' := unified_of_target site hu hm (by simp [hx, hy]) htarget'
  simp only [replaceInOrder, TypeTable.adapt_of_type? htype] at huni huni'
  -- Only the site at which the other operand is converted depends on the order.
  have hcontents : ∀ s s', (r.types.adapt s d.key y).map Value.contents =
      (r.types.adapt s' d.key y).map Value.contents := fun s s' =>
    (TypeTable.adapt_contents_eq hreg hd y s s').trans
      (TypeTable.adapt_contents_eq hreg hd y s' s').symm
  have hadapt := hcontents ((site.child 1).child 0) ((site.child 1).child 1)
  cases hw : r.types.adapt ((site.child 1).child 1) d.key y with
  | error e =>
    rw [hw] at huni hadapt
    rw [map_eq_error_iff.mp hadapt] at huni'
    exact .inl ⟨e, _, _, huni, huni'⟩
  | ok w =>
    rw [hw] at huni hadapt
    obtain ⟨w', hw', hsame⟩ := map_eq_ok_iff.mp hadapt
    rw [hw'] at huni'
    have hxi := TypeTable.isInstance_of_type? hd hx htype
    have hwi := TypeTable.isInstance_of_adapt hreg hl hd hy hw
    have hwi' := TypeTable.isInstance_of_adapt hreg hl hd hy hw'
    have hdiscrete : ∀ s : Scalar, s.kind = d.leafKind → s.SameDiscrete s := fun s hs =>
      ⟨rfl, hs ▸ hkind⟩
    exact .inr ⟨w, w', huni, huni',
      .of_instances hd (by simp [hxi, hwi]),
      .of_instances hd (by simp [hxi, hwi']),
      ⟨Descriptor.related_of_contents hdiscrete hxi rfl,
        Descriptor.related_of_contents hdiscrete hwi hsame⟩⟩

theorem apply_sameOutcome_swap (hc : c.Proper) (hop : c.op.Commutes)
    (hkind : d.leafKind.isFloat = false) (heval : d.EvaluatesAt c.op) (held held' : List Value) :
    Dispatched.SameOutcome (r.apply c held site [x, y]).result
      (r.apply c held' site [y, x]).result := by
  have hd := TypeTable.registered_of_target (by simp [hx, hy]) htarget
  obtain ⟨a, ha⟩ := TypeTable.exists_array_of_target (by simp [hx, hy]) htarget
  have harity : ∀ u v : Value, [u, v].length = c.op.arity := fun _ _ => hop.arity_eq.symm
  have ha' : .array a ∈ [y, x] := (List.Perm.swap x y []).mem_iff.mpr ha
  rcases unified_swap site hreg hl hu hmode hx hy htype htarget htarget' hkind with
    ⟨e, f, f', h, h'⟩ | ⟨w, w', h, h', hfit, hfit', hrel⟩
  · rw [apply_of_unified_eq_error (hc.takes (harity _ _)) ha h,
      apply_of_unified_eq_error (hc.takes (harity _ _)) ha' h']
    exact .error rfl
  · exact (apply_corresponds_of_unified hreg hl hu (bisimulation_swaps hop) hc (by simp [hmode])
      (harity _ _) (harity _ _) ha ha' h h' rfl rfl hd heval hfit hfit' hrel held
      held').sameOutcome

end Registry

/-! ## Stock types of booleans and of integers -/

namespace Stock

/-- The types of booleans and of integers that operands of any lengths and shapes have. -/
def discreteKeys : List TypeKey := [boolX, int32X, int64X, uint32X, tensorXb, tensorXi]

/-- Booleans and integers, and well-formed arrays and tensors of them. -/
def Discrete : Value → Prop
  | .scalar s => s.kind.isFloat = false
  | .array a => registry.types.WellFormed (.array a) ∧ a.type ∈ discreteKeys

theorem Discrete.wellFormed {v : Value} (h : Discrete v) : registry.types.WellFormed v := by
  cases v with
  | scalar s => trivial
  | array a => exact h.1

theorem Discrete.registered {a : Object} {d : Descriptor} (h : Discrete (.array a))
    (hd : registry.types.descriptor a.type = .ok d) :
    registry.types.Registered d ∧ d.key ∈ discreteKeys ∧ a.type = d.key := by
  obtain ⟨hreg, hi⟩ := TypeTable.isInstance_of_descriptor h.1 hd
  exact ⟨hreg, hi.type_eq ▸ h.2, hi.type_eq⟩

theorem isFloat_leafKind_of_discrete : ∀ d ∈ registry.types.types, d.key ∈ discreteKeys →
    d.leafKind.isFloat = false := by
  rw [types_registry]
  decide

theorem key_eq_of_rank_eq : ∀ d ∈ registry.types.types, ∀ e ∈ registry.types.types,
    d.key ∈ discreteKeys → e.key ∈ discreteKeys → d.rank = e.rank → d.key = e.key := by
  rw [types_registry]
  decide

theorem ranksApart_of_discrete {vs : List Value} (hvs : ∀ v ∈ vs, Discrete v) :
    registry.types.RanksApart vs := by
  intro a b ha hb d e hd he hrank
  obtain ⟨hreg, hkey, htype⟩ := (hvs _ ha).registered hd
  obtain ⟨hreg', hkey', htype'⟩ := (hvs _ hb).registered he
  rw [htype, htype']
  exact key_eq_of_rank_eq d (TypeTable.Regular.mem_of_registered hreg) e
    (TypeTable.Regular.mem_of_registered hreg') hkey hkey' hrank

theorem exists_target_of_discrete {x y : Value} (hx : Discrete x) (hy : Discrete y)
    (harray : ∃ a, .array a ∈ [x, y]) :
    ∃ d ∈ registry.types.types, d.key ∈ discreteKeys ∧ registry.types.target [x, y] = .ok d ∧
      registry.types.target [y, x] = .ok d := by
  have hvs : ∀ v ∈ [x, y], Discrete v := by simp [hx, hy]
  obtain ⟨d, hd⟩ := TypeTable.exists_highest harray fun a ha =>
    (hvs _ ha).1.imp fun e he => TypeTable.descriptor_eq_ok_iff.mpr he.1
  obtain ⟨a, ha, hfound⟩ := hd.exists_mem
  obtain ⟨hreg, hkey, _⟩ := (hvs _ ha).registered hfound
  refine ⟨d, TypeTable.Regular.mem_of_registered hreg, hkey,
    TypeTable.target_eq_ok_iff.mpr hd, TypeTable.target_eq_ok_iff.mpr ?_⟩
  exact (TypeTable.highest_perm_iff (.swap x y []) (ranksApart_of_discrete hvs)).mpr hd

theorem evaluatesAt_masks (op : Op) : masksType.EvaluatesAt op := by
  intro kernel hop
  change (TypeDecl.withKernels _ boolKernels).ops op = .native kernel at hop
  exact evaluates_boolKernels (op, kernel) <|
    (TypeDecl.ops_withKernels hop).resolve_left (ops_masks_ne_native op kernel)

theorem evaluatesAt_of_discrete (op : Op) : ∀ d ∈ registry.types.types, d.key ∈ discreteKeys →
    d.EvaluatesAt op := by
  have hmasks := evaluatesAt_masks op
  have hintegers : ∀ name key t, (integersType name key t).EvaluatesAt op :=
    fun _ _ _ _ hop => by cases hop
  have hother : ∀ {d : Descriptor}, d.key ∉ discreteKeys → d.key ∈ discreteKeys →
    d.EvaluatesAt op := fun hnot h => absurd h hnot
  rw [types_registry]
  simp only [List.forall_mem_cons]
  exact ⟨fun _ => hmasks, fun _ => hintegers _ _ _, fun _ => hintegers _ _ _,
    fun _ => hintegers _ _ _, hother (by decide), hother (by decide), hother (by decide),
    hother (by decide), hother (by decide), hother (by decide), fun _ => hmasks,
    fun _ => hintegers _ _ _, hother (by decide), hother (by decide), List.forall_mem_nil _⟩

end Stock

/-- Operations that commute on booleans and on integers commute through the whole dispatch. In the
stock registry, let each of two operands be a boolean, an integer, or an array or tensor of them, of
any length or shape. In either order the call returns the same value, does not support the
operation, or fails with an error of the same kind. -/
theorem apply_commutative {op : Op} (hop : op.Commutes) {x y : Value} (hx : Stock.Discrete x)
    (hy : Stock.Discrete y) (held held' : List Value) (site : Site) :
    Dispatched.SameOutcome (Stock.registry.apply ⟨.normal, op, .method⟩ held site [x, y]).result
      (Stock.registry.apply ⟨.normal, op, .method⟩ held' site [y, x]).result := by
  set c : Call := ⟨.normal, op, .method⟩
  have hc : c.Proper := .normal (by cases hop <;> decide)
  rcases Value.exists_scalars_or_array [x, y] with ⟨ss, hss⟩ | harray
  · obtain ⟨s, u, rfl⟩ : ∃ s u, ss = [s, u] := List.length_eq_two.mp (by
      simpa using (congrArg List.length hss).symm)
    cases hss
    rw [Registry.apply_scalars_swap site hc hop hx hy held held']
    exact Dispatched.sameOutcome_self _
  · have hreg : Stock.registry.types.Regular :=
      ⟨Stock.built_registry.sound, Stock.stockAccess_registry⟩
    obtain ⟨d, hmem, hkey, htarget, htarget'⟩ := Stock.exists_target_of_discrete hx hy harray
    have hkind := Stock.isFloat_leafKind_of_discrete d hmem hkey
    have heval := Stock.evaluatesAt_of_discrete op d hmem hkey
    -- Either operand may be the one that has the type already.
    obtain ⟨v, hv, htype⟩ := TypeTable.exists_type?_of_target
      (by simp [hx.wellFormed, hy.wellFormed]) htarget
    simp only [List.mem_cons, List.not_mem_nil, or_false] at hv
    rcases hv with rfl | rfl
    · exact Registry.apply_sameOutcome_swap site hreg Stock.lawful_registry rfl rfl hx.wellFormed
        hy.wellFormed htype htarget htarget' hc hop hkind heval held held'
    · exact (Registry.apply_sameOutcome_swap site hreg Stock.lawful_registry rfl rfl hy.wellFormed
        hx.wellFormed htype htarget' htarget hc hop hkind heval held' held).symm

/-- An array is added to a tensor. Either way the array becomes a tensor first, in one call as the
operand that represents the call and in the other as the second one. -/
theorem apply_commutative_array_tensor :
    let x := Stock.integerArray ⟨[0]⟩ [5]
    let y := Stock.integerTensor ⟨[1]⟩ [10, 20] [2]
    let c : Call := ⟨.normal, .add, .method⟩
    ∃ v, (Stock.registry.apply c [] ⟨[2]⟩ [x, y]).result = .ok (.value v) ∧
      (Stock.registry.apply c [] ⟨[2]⟩ [y, x]).result = .ok (.value v) := by
  intro x y c
  have hx : Stock.Discrete x := ⟨⟨_, rfl, Stock.isInstance_integerArray _ _⟩, by decide⟩
  have hy : Stock.Discrete y := ⟨⟨_, rfl, Stock.isInstance_integerTensor _ rfl⟩, by decide⟩
  have hvalue : (Stock.registry.apply c [] ⟨[2]⟩ [x, y]).value?.isSome = true := by
    decide +kernel
  obtain ⟨v, hv⟩ := Option.isSome_iff_exists.mp hvalue
  have hresult := Outcome.value?_eq_some_iff.mp hv
  have h := apply_commutative .add hx hy [] [] ⟨[2]⟩
  rw [hresult] at h
  refine ⟨v, hresult, ?_⟩
  generalize (Stock.registry.apply c [] ⟨[2]⟩ [y, x]).result = z at h
  cases h
  rfl

end ArrayDispatch
