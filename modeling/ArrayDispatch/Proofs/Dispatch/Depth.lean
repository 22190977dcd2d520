import ArrayDispatch.Proofs.Dispatch.ErrorTrail
import ArrayDispatch.Proofs.Dispatch.InPlace
import ArrayDispatch.Proofs.Dispatch.NamedFunction
import ArrayDispatch.Proofs.Dispatch.Nesting
import ArrayDispatch.Proofs.Dispatch.Unsupported
import ArrayDispatch.Proofs.Types.TensorConversion

/-!
How deep calls nest. Every nested call works on elements of the unified operands, so the depth of
their type bounds the chain of calls, whatever the operands hold and however long they are.
-/

namespace ArrayDispatch

/-! ## Calls whose operation fits their mode -/

/-- Selections select and rich comparisons compare; no other call does the latter. -/
def Mode.Allows : Mode → Op → Prop
  | normal, op | inPlace, op => op ≠ .richcmp
  | select, op => op = .select
  | richCompare, op => op = .richcmp

namespace Call

/-- A call goes by methods, by the function with the name of its operation or, if it is a rich
comparison, by one of the comparisons. -/
structure Suited (c : Call) : Prop where
  allows : c.mode.Allows c.op
  slot : c.slot = .method ∨ c.slot = .function c.op.name ∨
    c.mode = .richCompare ∧ ∃ cmp, c.slot = .compare cmp

theorem Suited.inner {c : Call} (h : c.Suited) : c.inner.Suited := by
  obtain ⟨mode, op, slot⟩ := c
  obtain ⟨hallows, hslot⟩ := h
  cases mode with
  | inPlace => exact ⟨hallows, hslot.imp_right fun h => h.imp_right fun h => by cases h.1⟩
  | _ => exact ⟨hallows, hslot⟩

/-- The call `c'` is one that `c` makes on elements: it has no more value operands than `c`, and no
storage to write. -/
structure Descends (c c' : Call) : Prop where
  suited : c'.Suited
  mode_ne : c'.mode ≠ .inPlace
  representative_le : c.mode.representative ≤ c'.mode.representative

theorem descends_inner {c : Call} (h : c.Suited) : c.Descends c.inner :=
  ⟨h.inner, c.inner_mode_ne, Nat.le_of_eq c.inner_representative.symm⟩

/-- The function of an operation makes a selection of any call that selects. -/
theorem descends_byFunction {mode : Mode} {op : Op} {slot : Slot} (h : mode.Allows op)
    (hop : op ≠ .richcmp) :
    Descends ⟨mode, op, slot⟩ (byFunction (if op = .select then .select else .normal) op) := by
  by_cases hs : op = .select
  · subst hs
    refine ⟨⟨rfl, .inr (.inl rfl)⟩, by decide, ?_⟩
    cases mode with
    | select => exact Nat.le_refl 1
    | _ => exact Nat.zero_le 1
  · rw [if_neg hs]
    refine ⟨⟨hop, .inr (.inl rfl)⟩, Mode.noConfusion, ?_⟩
    cases mode with
    | select => exact absurd h hs
    | _ => exact Nat.le_refl 0

end Call

namespace Registry

variable {r : Registry} {self self' : Dispatcher} {c c' : Call}

theorem function?_empty_richcmp : Registry.empty.function? Op.richcmp.name = none := rfl

theorem counterpart_cases (hf : r.functions = Registry.empty.functions) (hc : c.Suited) :
    (∃ cause, ∀ self, r.counterpart self c = .error cause) ∨
      ∃ c', c.Descends c' ∧ ∀ self, r.counterpart self c =
        .ok fun site args => self.onElements r.types site c' args := by
  obtain ⟨mode, op, slot⟩ := c
  have hfunction : ∀ name, r.function? name = Registry.empty.function? name := fun name => by
    rw [function?, function?, hf]
  rcases hc.slot with h | h | ⟨h, cmp, h'⟩ <;> dsimp only at h
  · subst h
    exact .inr ⟨_, Call.descends_inner hc, fun self => rfl⟩
  · subst h
    by_cases hop : op = .richcmp
    · subst hop
      refine .inl ⟨.unknownFunction Op.richcmp.name, fun self => ?_⟩
      simp only [counterpart, hfunction, function?_empty_richcmp]
      rfl
    · refine .inr ⟨_, Call.descends_byFunction hc.allows hop, fun self => ?_⟩
      simp only [counterpart, hfunction, function?_empty hop]
      rfl
  · dsimp only at h'
    subst h h'
    exact .inr ⟨_, Call.descends_inner hc, fun self => rfl⟩

end Registry

/-! ## Values of one depth -/

namespace TypeTable

/-- Scalars have depth 0, and the instances of a plain type the depth of the type. -/
inductive AtDepth (t : TypeTable) : Nat → List Value → Prop
  | scalars (ss : List Scalar) : AtDepth t 0 (ss.map .scalar)
  | instances {d : Descriptor} {vs : List Value} (hd : t.Registered d) (hp : d.isTensor = false)
      (hvs : ∀ v ∈ vs, d.IsInstance v) : AtDepth t d.ndim vs

variable {t : TypeTable} {d b : Descriptor} {info : TypeInfo} {vs : List Value} {v w : Value}
  {site : Site}

theorem AtDepth.drop {k : Nat} (h : t.AtDepth k vs) (n : Nat) : t.AtDepth k (vs.drop n) := by
  cases h with
  | scalars ss =>
    rw [← List.map_drop]
    exact .scalars (ss.drop n)
  | instances hd hp hvs => exact .instances hd hp fun v hv => hvs v (List.mem_of_mem_drop hv)

theorem Sound.atDepth_of_hasItem (hs : t.Sound) (hd : t.Registered d) (hp : d.isTensor = false)
    (h : ∀ v ∈ vs, d.HasItem v) : ∃ k, d.ndim = k + 1 ∧ t.AtDepth k vs := by
  cases d with
  | flat info kind extent =>
    refine ⟨0, rfl, ?_⟩
    obtain ⟨ss, rfl⟩ | ⟨a, ha⟩ := Value.exists_scalars_or_array vs
    · exact .scalars ss
    · obtain ⟨s, hscalar, _⟩ := h _ ha
      cases hscalar
  | nested info element extent =>
    have hplaced := (hs.placed_of_registered hd).component element rfl
    exact ⟨element.ndim, rfl, .instances hplaced.1 hplaced.2 h⟩
  | tensor info backing => cases hp

end TypeTable

/-! ## Loops whose counterparts agree -/

namespace Loop

variable {l : Loop} {k : Counterpart} {p : Payload} {n : Nat}

theorem get?_of_position (hta : l.target.info.access = .stock) {i : Nat} {q q' : Payload}
    (h : l.position q i = .ok q') {j : Nat} (hj : j ≠ i) : q'.get? j = q.get? j := by
  obtain ⟨args, _, h⟩ := bind_eq_ok_iff.mp h
  obtain ⟨v, _, h⟩ := bind_eq_ok_iff.mp h
  obtain ⟨w, _, hwritten⟩ :=
    Payload.written_of_set_eq_ok ((TypeTable.store_of_stock hta).mp h)
  exact hwritten.get?_ne j hj

/-- Counterparts that agree on the arguments of every position lead to the same. What a position
reads from the storage that is written has not been written yet. -/
theorem run_withCounterpart (hta : l.target.info.access = .stock)
    (h : ∀ i q args, i < n → (∀ j, i ≤ j → q.get? j = p.get? j) →
      l.sources.mapM (l.argument q i) = .ok args →
        k (l.site.child i) args = l.counterpart (l.site.child i) args) :
    (l.withCounterpart k).run p n = l.run p n := by
  induction n with
  | zero => rfl
  | succ n ih =>
    rw [run_succ, run_succ, ih fun i q args hi => h i q args (by omega)]
    rcases hrun : l.run p n with ⟨e | u, q⟩
    · rfl
    · have hrest : ∀ j, n ≤ j → q.get? j = p.get? j := by
        refine (run_invariant (fun i q => ∀ j, i ≤ j → q.get? j = p.get? j) (fun _ _ => rfl)
          fun i q q' _ hq hpos j hj => ?_).1 q hrun
        rw [get?_of_position hta hpos (by omega), hq j (by omega)]
      have hpos : (l.withCounterpart k).position q n = l.position q n := by
        unfold position
        change l.sources.mapM (l.argument q n) >>= _ = l.sources.mapM (l.argument q n) >>= _
        cases hargs : l.sources.mapM (l.argument q n) with
        | error e => rfl
        | ok args =>
          change (escaping (.element n) (k (l.site.child n) args) >>= _) = _
          rw [h n q args (Nat.lt_succ_self n) hrest hargs]
          rfl
      simp only [hpos]

theorem items_of_arguments {i : Nat} {us args : List Value} {lens : List Nat}
    (hlen : us.length = lens.length)
    (h : ((us.map some).zip lens).mapM (l.argument p i) = .ok args) :
    List.Forall₂ (fun u v => ∃ j, l.itemOf u j = .ok (some v)) us args := by
  induction us generalizing lens args with
  | nil =>
    cases h
    exact .nil
  | cons u us ih =>
    cases lens with
    | nil => cases hlen
    | cons m lens =>
      rw [List.map_cons, List.zip_cons_cons, List.mapM_cons] at h
      obtain ⟨v, hv, h⟩ := bind_eq_ok_iff.mp h
      obtain ⟨args', hargs, h⟩ := bind_eq_ok_iff.mp h
      cases h
      exact .cons (itemOf_of_argument hv) (ih (Nat.succ.inj hlen) hargs)

theorem intoNew_withCounterpart {site : Site} {len : Nat}
    (h : (l.withCounterpart k).run (l.target.alloc site len) len =
      l.run (l.target.alloc site len) len) (held : List Value) (movable : Option Object)
    (operands : List Value) :
    (l.withCounterpart k).intoNew held site len movable operands =
      l.intoNew held site len movable operands := by
  unfold intoNew
  rw [target_withCounterpart, h]

theorem intoOperand_withCounterpart {a : Object} {len : Nat}
    (h : (l.withCounterpart k).run a.payload len = l.run a.payload len) (unique : Bool)
    (site : Site) (operands : List Value) :
    (l.withCounterpart k).intoOperand a unique site len operands =
      l.intoOperand a unique site len operands := by
  unfold intoOperand
  rw [h]

end Loop

/-! ## Calls that descend -/

namespace Dispatcher

theorem onElements_congr {self self' : Dispatcher} {c : Call} {site : Site} {args : List Value}
    (h : self.run ⟨c, args, site, args⟩ = self'.run ⟨c, args, site, args⟩) (t : TypeTable) :
    self.onElements t site c args = self'.onElements t site c args := by
  change self c args site args = self' c args site args at h
  unfold onElements
  rw [h]

end Dispatcher

/-- A call on values of depth `k` that suits its mode and writes no storage. -/
structure TypeTable.Descent (t : TypeTable) (k : Nat) (q : Invocation) : Prop where
  suited : q.call.Suited
  mode_ne : q.call.mode ≠ .inPlace
  atDepth : t.AtDepth k (q.operands.drop q.call.mode.representative)

namespace Registry

variable {r : Registry} {self self' : Dispatcher} {c c' : Call} {held us vs : List Value}
  {site : Site} {d b target : Descriptor} {info : TypeInfo} {k : Nat}

/-- The nested calls of a call on instances of `d` are on elements, one level less deep. -/
def OnItems (r : Registry) (d : Descriptor) (q : Invocation) : Prop :=
  ∃ k, d.ndim = k + 1 ∧ r.types.Descent k q

/-- What the counterpart of a call makes of elements, if the call on them is `c'`. -/
def onItems (r : Registry) (self : Dispatcher) (c' : Call) : Counterpart :=
  fun site args => self.onElements r.types site c' args

/-- A loop into the storage of operand 0 reads the operands as they were. -/
theorem reads_of_movable (ht : r.types.Regular) (hp : d.isTensor = false) {lens : List Nat}
    (hlens : us.mapM r.types.operandLength = .ok lens) {n : Nat}
    (hrec : reconcileLengths lens = .ok n) {a : Object} (hm : c.movable? us vs = some a)
    (h : r.UnifiedTo d vs us) (hta : target.info.access = .stock)
    (hfits : (d.extent.fixed?.isSome || lens.head? == some n) = true) (counterpart : Counterpart) :
    (Loop.mk r.types target counterpart
      ((us.map fun u => if u.id? = some a.id then none else some u).zip lens)
      site).Reads us n a.payload := by
  have hus := h.isInstance hp
  have harr : r.Arrays us := fun u hu => ⟨d, h.registered, hus u hu⟩
  obtain ⟨lens', hl⟩ := exists_lengths harr
  rw [operandLengths_eq ht harr hl, Except.ok.injEq] at hlens
  subst hlens
  obtain ⟨hu, hv⟩ := h.head?_of_movable? hm
  have hne : lens' ≠ [] := by
    rintro rfl
    cases hl
    cases hu
  have hr := (reconcileLengths_eq_ok_iff_reconciles hne).mp hrec
  have hlen : a.length = n := length_eq_of_fits hus hl hr hu hfits
  exact reads_inPlace ht harr hl hta (h.eq_of_id? a hv) (by omega) counterpart site

section Loop

variable (ht : r.types.Regular) (hd : r.types.Registered d) (hp : d.isTensor = false)
  (hagree : self.AgreesOn self' (r.OnItems d))

include ht hd hp hagree

theorem onItems_congr (hdesc : c.Descends c') {args : List Value}
    (hargs : ∀ v ∈ args.drop c.mode.representative, d.HasItem v) (site : Site) :
    r.onItems self c' site args = r.onItems self' c' site args := by
  obtain ⟨k, hk, hdepth⟩ := ht.sound.atDepth_of_hasItem hd hp hargs
  refine Dispatcher.onElements_congr (hagree _ ⟨k, hk, hdesc.suited, hdesc.mode_ne, ?_⟩) r.types
  have hdrop := hdepth.drop (c'.mode.representative - c.mode.representative)
  rwa [List.drop_drop, Nat.add_sub_cancel' hdesc.representative_le] at hdrop

theorem run_new_congr (hdesc : c.Descends c')
    (hus : ∀ u ∈ us.drop c.mode.representative, d.IsInstance u)
    (hta : target.info.access = .stock) {lens : List Nat} (hlen : us.length = lens.length)
    (p : Payload) (n : Nat) :
    let l := Loop.mk r.types target (r.onItems self' c') ((us.map some).zip lens) site
    (l.withCounterpart (r.onItems self c')).run p n = l.run p n := by
  refine Loop.run_withCounterpart hta fun i q args _ _ hargs =>
    onItems_congr ht hd hp hagree hdesc (fun v hv => ?_) _
  have hitems := List.forall₂_drop c.mode.representative (Loop.items_of_arguments hlen hargs)
  obtain ⟨u, hu, j, hj⟩ := exists_mem_of_forall₂ hitems hv
  exact Loop.hasItem_of_itemOf ht hd (hus u hu) hj

/-- Loops into the storage of operand 0 read what has not been written yet. -/
theorem run_inPlace_congr (hdesc : c.Descends c') (hus : ∀ u ∈ us, d.IsInstance u)
    {sources : List (Option Value × Nat)} {p : Payload} {n : Nat}
    (hreads : (Loop.mk r.types target (r.onItems self' c') sources site).Reads us n p) :
    let l := Loop.mk r.types target (r.onItems self' c') sources site
    (l.withCounterpart (r.onItems self c')).run p n = l.run p n := by
  refine Loop.run_withCounterpart hreads.target fun i q args hi hq hargs =>
    onItems_congr ht hd hp hagree hdesc (fun v hv => ?_) _
  rw [hreads.arguments_eq hi hq] at hargs
  obtain ⟨u, hu, helement⟩ :=
    exists_mem_of_forall₂ (mapM_eq_ok_iff.mp hargs) (List.mem_of_mem_drop hv)
  exact (hus u hu).hasItem (Value.elementAt_eq_ok_iff.mp helement)

theorem loopCall_congr (hf : r.functions = Registry.empty.functions) (hc : c.Suited)
    (hus : ∀ u ∈ us.drop c.mode.representative, d.IsInstance u)
    (hin : c.mode = .inPlace → r.UnifiedTo d vs us)
    (htarget : r.types.descriptor (c.resultType d) = .ok target) :
    r.loopCall self c held site d target us vs = r.loopCall self' c held site d target us vs := by
  have hta : target.info.access = .stock :=
    ht.access target (List.mem_of_getElem? (TypeTable.descriptor_eq_ok_iff.mp htarget))
  rcases counterpart_cases hf hc with ⟨cause, hcp⟩ | ⟨c', hdesc, hcp⟩
  · unfold loopCall loopParts
    rw [hcp self, hcp self']
  · unfold loopCall loopParts
    rw [hcp self, hcp self']
    cases hlens : us.mapM r.types.operandLength with
    | error cause => rfl
    | ok lens =>
      dsimp only [bind, Except.bind]
      cases hrec : reconcileLengths lens with
      | error cause => rfl
      | ok n =>
        have hlen : us.length = lens.length := (mapM_eq_ok_iff.mp hlens).length_eq
        have hnew : ∀ movable,
            (Loop.mk r.types target (r.onItems self c') ((us.map some).zip lens)
              (site.child 4)).intoNew held site n movable vs =
            (Loop.mk r.types target (r.onItems self' c') ((us.map some).zip lens)
              (site.child 4)).intoNew held site n movable vs := fun movable =>
          Loop.intoNew_withCounterpart
            (run_new_congr ht hd hp hagree hdesc hus hta hlen _ n) held movable vs
        dsimp only [pure, Except.pure]
        cases hm : c.movable? us vs with
        | none => exact hnew none
        | some a =>
          cases hfits : d.extent.fixed?.isSome || lens.head? == some n with
          | false => exact hnew (some a)
          | true =>
            have hu := hin (Call.movable?_eq_some_iff.mp hm).1
            exact Loop.intoOperand_withCounterpart
              (run_inPlace_congr ht hd hp hagree hdesc (hu.isInstance hp)
                (reads_of_movable ht hp hlens hrec hm hu hta hfits _)) _ site vs

theorem arrayCall_congr (hf : r.functions = Registry.empty.functions) (hc : c.Suited)
    (hus : ∀ u ∈ us.drop c.mode.representative, d.IsInstance u)
    (hin : c.mode = .inPlace → r.UnifiedTo d vs us) :
    r.arrayCall self c held site d us vs = r.arrayCall self' c held site d us vs := by
  unfold arrayCall
  split
  · rfl
  · cases htarget : r.types.descriptor (c.resultType d) with
    | error cause => rfl
    | ok target =>
      dsimp only
      cases d.op c.op with
      | unsupported => rfl
      | native kernel => rfl
      | generic => exact loopCall_congr ht hd hp hagree hf hc hus hin htarget

end Loop

/-! ## Nested calls -/

theorem resolve_congr (ht : r.types.Regular) (hf : r.functions = Registry.empty.functions)
    (hc : c.Suited) (h : r.Promoted c d us) (hp : d.isTensor = false)
    (hus : ∀ u ∈ us.drop c.mode.representative, d.IsInstance u)
    (hin : c.mode = .inPlace → r.UnifiedTo d vs us)
    (hagree : self.AgreesOn self' (r.OnItems d)) :
    r.resolve self c held site us vs = r.resolve self' c held site us vs := by
  rw [h.resolve_eq, h.resolve_eq, hp, arrayCall_congr ht h.registered hp hagree hf hc hus hin]
  rfl

/-- Only calls that reach the type of their representative make nested calls. -/
theorem makesOnly_of_resolve {P : Invocation → Prop} {q : Invocation}
    (h : ∀ (a : Object) us, .array a ∈ q.operands → q.call.Takes q.operands.length →
      r.unified q.call q.site q.operands = .ok us → ∀ self self' : Dispatcher,
        self.AgreesOn self' P → r.resolve self q.call q.held q.site us q.operands =
          r.resolve self' q.call q.held q.site us q.operands) : r.MakesOnly P q := by
  intro self self' hagree
  change r.step self q.call q.held q.site q.operands = r.step self' q.call q.held q.site q.operands
  by_cases hc : q.call.Takes q.operands.length
  case neg => rw [step_of_not_takes hc, step_of_not_takes hc]
  rcases Value.exists_scalars_or_array q.operands with ⟨ss, hss⟩ | ⟨a, ha⟩
  · rw [hss, List.length_map] at hc
    rw [hss, step_scalars hc, step_scalars hc]
  · rw [step_of_isArray hc ha, step_of_isArray hc ha]
    cases hus : r.unified q.call q.site q.operands with
    | error e => rfl
    | ok us =>
      dsimp only
      rw [h a us ha hc hus self self' hagree]

theorem not_unified_of_scalars (hu : r.unifier = .promote) {a : Object} (ha : .array a ∈ vs)
    (hlt : c.mode.representative < vs.length) {ss : List Scalar}
    (hss : vs.drop c.mode.representative = ss.map .scalar) (h : r.unified c site vs = .ok us) :
    False := by
  rcases unified_cases h with ⟨rfl, htags⟩ | h
  · have hrep := Call.representative_mem_drop hlt
    have htag := htags _ ha _ (List.mem_of_mem_drop hrep)
    rw [hss] at hrep
    obtain ⟨s, _, hs⟩ := List.mem_map.mp hrep
    rw [← hs] at htag
    cases htag
  · obtain ⟨cause, hcause⟩ := r.types.exists_target_scalars ss
    rw [hu, Unifier.promote_of_target_eq_error (hss ▸ hcause)] at h
    cases h

/-- A nested call makes calls on elements that are one level less deep, and on scalars none. -/
theorem makesOnly_of_descent (ht : r.types.Regular) (hu : r.unifier = .promote)
    (hf : r.functions = Registry.empty.functions) {q : Invocation} (h : r.types.Descent k q) :
    r.MakesOnly (fun q' => ∃ j, k = j + 1 ∧ r.types.Descent j q') q := by
  obtain ⟨c, held, site, vs⟩ := q
  obtain ⟨hc, hmode, hdepth⟩ := h
  refine makesOnly_of_resolve fun a us ha htakes hus self self' hagree => ?_
  have hlt := htakes.representative_lt
  dsimp only at hdepth ha hus hlt ⊢
  generalize hws : vs.drop c.mode.representative = ws at hdepth
  cases hdepth with
  | scalars ss => exact (not_unified_of_scalars hu ha hlt hws hus).elim
  | @instances d _ hd hp hvs =>
    have hrep := Call.representative_mem_drop hlt
    rw [← hws] at hvs
    have htarget := TypeTable.target_of_type? hd (fun v hv => (hvs v hv).type?)
      (List.ne_nil_of_mem hrep)
    obtain ⟨hlen, hall⟩ := adapted_of_target hu hd hlt htarget ⟨_, hrep, (hvs _ hrep).type?⟩ hus
    refine resolve_congr ht hf hc (promoted_of_adapted hd (hlen ▸ hlt) hall) hp (fun u hu => ?_)
      (fun hin => absurd hin hmode) hagree
    obtain ⟨v, hv, hvu⟩ := exists_mem_of_forall₂ hall hu
    exact hvu.isInstance ht hd (Descriptor.convertible_of_plain hp) (.of_isInstance hd (hvs v hv))

theorem nestsWithin_of_descent (ht : r.types.Regular) (hu : r.unifier = .promote)
    (hf : r.functions = Registry.empty.functions) {q : Invocation} (h : r.types.Descent k q) :
    r.NestsWithin (k + 1) q := by
  induction k generalizing q with
  | zero =>
    refine (makesOnly_of_descent ht hu hf h).mono fun p ⟨j, hj, _⟩ => ?_
    cases hj
  | succ k ih =>
    refine (makesOnly_of_descent ht hu hf h).mono fun p ⟨j, hj, hp⟩ => ih ?_
    cases hj
    exact hp

end Registry

/-! ## Calls on tensors -/

namespace TypeTable

variable {t : TypeTable} {d b : Descriptor} {info : TypeInfo} {v w : Value} {us arrays : List Value}
  {site : Site}

theorem exists_backing (h : (Descriptor.tensor info b).IsInstance v) :
    ∃ p, v.tensor? = some p ∧ b.IsInstance (.array p.1) := by
  obtain ⟨p, hp⟩ := exists_tensor? h
  exact ⟨p, hp, (isInstance_of_tensor? h hp).1⟩

/-- The backing array of a promoted operand is an instance of the backing type, also where the
shape does not fit. -/
theorem Adapted.exists_backing (ht : t.Regular) (hd : t.Registered (.tensor info b))
    (hv : t.WellFormed v) (h : t.Adapted site (.tensor info b) v w) :
    ∃ p, w.tensor? = some p ∧ b.IsInstance (.array p.1) := by
  rcases h with ⟨rfl, htype⟩ | ⟨i, a, rfl, _, ha⟩
  · exact TypeTable.exists_backing (isInstance_of_type? hd hv htype)
  · cases v with
    | scalar s =>
      exact TypeTable.exists_backing (isInstance_of_lift ht hd (t.convertTo_scalar _ s _ ▸ ha)).2.2
    | array c =>
      obtain ⟨e, he, hi⟩ := hv.exists_isInstance
      have hget : t.descriptor c.type = .ok e :=
        descriptor_eq_ok_iff.mpr (hi.type_eq.symm ▸ he)
      obtain ⟨flat, shape, _, hp, hflat, _⟩ := tensor_of_convertTo ht hd hv hget ha
      exact ⟨(flat, shape), by simp [Value.tensor?, Value.object?, hp, Payload.tensor?], hflat⟩

theorem isInstance_of_expand (hp : b.isTensor = false) (hext : b.extent = .dynamic) {a a' : Object}
    (ha : b.IsInstance (.array a)) {src dst : List Nat} (h : a.expand site src dst = .ok a') :
    b.IsInstance (.array a') := by
  rcases Object.expand_cases h with rfl | ⟨index, p, hgather, rfl⟩
  · exact ha
  · obtain ⟨hform, hitems⟩ := Payload.of_gather? hgather
    refine Descriptor.isInstance_array.mpr ⟨ha.type_eq, Descriptor.holds_of_items hp
      (hform.trans ha.form_eq) (by rw [hext]; trivial) fun i v hv => ?_⟩
    obtain ⟨j, hj⟩ := hitems i v hv
    exact Descriptor.hasItem_of_holds ha.holds hj

end TypeTable

namespace Registry

variable {r : Registry} {self self' : Dispatcher} {c : Call} {held us vs : List Value}
  {site : Site} {d b : Descriptor} {info : TypeInfo}

/-- A call on tensors depends on one call on arrays, which are of the depth of the tensors. -/
theorem tensorCall_congr (ht : r.types.Regular) (hc : c.Suited)
    (h : r.Promoted c (.tensor info b) us)
    (hback : ∀ u ∈ us.drop c.mode.representative,
      ∃ p, u.tensor? = some p ∧ b.IsInstance (.array p.1))
    (hagree : self.AgreesOn self' (r.types.Descent b.ndim)) :
    r.tensorCall self c held site us vs = r.tensorCall self' c held site us vs := by
  have hb := ht.registered_component h.registered rfl
  have hp := ht.component_isTensor h.registered rfl
  have hext := (ht.placed_of_registered h.registered).backing rfl b rfl
  unfold tensorCall
  rw [h.tensorParts_eq rfl]
  cases hx : r.types.expandAll (site.child 2) us with
  | error cause => rfl
  | ok parts =>
    obtain ⟨arrays, shape⟩ := parts
    have harrays : ∀ w ∈ arrays.drop c.mode.representative, b.IsInstance w := fun w hw => by
      obtain ⟨u, hu, p, s, dst, a, hup, ha, rfl⟩ :=
        exists_mem_of_forall₂ (List.forall₂_drop _ (TypeTable.expandsTo_of_expandAll hx)) hw
      obtain ⟨q, huq, hq⟩ := hback u hu
      cases huq.symm.trans hup
      exact TypeTable.isInstance_of_expand hp hext hq ha
    have hrun : self { c with mode := c.mode.nested } [] (site.child 3) arrays =
        self' { c with mode := c.mode.nested } [] (site.child 3) arrays :=
      hagree ⟨c.inner, [], site.child 3, arrays⟩ ⟨hc.inner, c.inner_mode_ne, by
        rw [c.inner_representative]
        exact .instances hb hp harrays⟩
    dsimp only [Except.map]
    rw [hrun]

/-! ## Calls on well-formed operands -/

section Unified

variable (ht : r.types.Regular) (hu : r.unifier = .promote)
  (hvs : ∀ v ∈ vs, r.types.WellFormed v)

include hu hvs

/-- An array among the operands is what they are promoted for, so the representative operand has the
type that they are promoted to. -/
theorem exists_promoted {a : Object} (ha : .array a ∈ vs)
    (hlt : c.mode.representative < vs.length) (hus : r.unified c site vs = .ok us) :
    ∃ d, r.Promoted c d us ∧
      (c.representative us).type?.bind r.types.descriptor? = some d ∧
      List.Forall₂ (r.types.Adapted (site.child 1) d) (vs.drop c.mode.representative)
        (us.drop c.mode.representative) := by
  obtain ⟨d, htarget⟩ := exists_target_of_unified hu hvs ha hlt hus
  have hvalues : ∀ v ∈ vs.drop c.mode.representative, r.types.WellFormed v := fun v hv =>
    hvs v (List.mem_of_mem_drop hv)
  obtain ⟨hlen, hall⟩ := adapted_of_target hu (TypeTable.registered_of_target hvalues htarget) hlt
    htarget (TypeTable.exists_type?_of_target hvalues htarget) hus
  obtain ⟨_, hpromoted, _⟩ := promoted_of_target hu hvs hlt htarget hus
  obtain ⟨b, hb, _, hfind⟩ := hpromoted.exists_representative
  exact ⟨d, hpromoted, by rw [hb]; exact hfind, hall⟩

include ht

theorem Promoted.unifiedTo (h : r.Promoted c d us) {a : Object} (ha : .array a ∈ vs)
    (hh : Handles site vs) (hm : c.mode = .inPlace) (hus : r.unified c site vs = .ok us) :
    r.UnifiedTo d vs us := by
  obtain ⟨d', hunified, _⟩ := exists_unifiedTo ht hu hvs hh (by rw [hm]; decide) ha hus
  have hrep := Call.representative_mem_drop h.representative_lt
  have hkey : some d'.key = some d.key :=
    (hunified.type?_eq _ (List.mem_of_mem_drop hrep)).symm.trans (h.type?_eq _ hrep)
  have hd : r.types.descriptor? d'.key = some d := Option.some.inj hkey ▸ h.registered
  cases hunified.registered.symm.trans hd
  exact hunified

variable (hf : r.functions = Registry.empty.functions) (hc : c.Suited)

include hf hc

/-- A call on operands that are unified to `d` nests one level deeper than `d`, and a call on
tensors two. -/
theorem nestsWithin_of_unified (hh : c.mode = .inPlace → Handles site vs)
    (hus : r.unified c site vs = .ok us)
    (hrep : (c.representative us).type?.bind r.types.descriptor? = some d) :
    r.NestsWithin (d.ndim + if d.isTensor then 2 else 1) ⟨c, held, site, vs⟩ := by
  have hnested : ∀ k q, r.types.Descent k q → r.NestsWithin (k + 1) q := fun k q =>
    nestsWithin_of_descent ht hu hf
  have hpromoted : ∀ a us', .array a ∈ vs → c.Takes vs.length → r.unified c site vs = .ok us' →
      us' = us ∧ r.Promoted c d us ∧ List.Forall₂ (r.types.Adapted (site.child 1) d)
        (vs.drop c.mode.representative) (us.drop c.mode.representative) := by
    intro a us' ha htakes hus'
    cases hus.symm.trans hus'
    obtain ⟨d', h, hrep', hall⟩ := exists_promoted hu hvs ha htakes.representative_lt hus
    cases hrep.symm.trans hrep'
    exact ⟨rfl, h, hall⟩
  cases d with
  | tensor info b =>
    refine makesOnly_of_resolve fun a us' ha htakes hus' self self' hagree => ?_
    obtain ⟨rfl, h, hall⟩ := hpromoted a us' ha htakes hus'
    have hback : ∀ u ∈ us'.drop c.mode.representative,
        ∃ p, u.tensor? = some p ∧ b.IsInstance (.array p.1) := fun u hmem => by
      obtain ⟨v, hv, hvu⟩ := exists_mem_of_forall₂ hall hmem
      exact hvu.exists_backing ht h.registered (hvs v (List.mem_of_mem_drop hv))
    rw [h.resolve_eq, h.resolve_eq]
    exact tensorCall_congr ht hc h hback (hagree.mono (hnested b.ndim))
  | _ =>
    refine makesOnly_of_resolve fun a us' ha htakes hus' self self' hagree => ?_
    obtain ⟨rfl, h, hall⟩ := hpromoted a us' ha htakes hus'
    refine resolve_congr ht hf hc h rfl (fun u hmem => ?_)
      (fun hm => h.unifiedTo ht hu hvs ha (hh hm) hm hus')
      (hagree.mono fun q ⟨k, hk, hq⟩ => hk ▸ hnested k q hq)
    obtain ⟨v, hv, hvu⟩ := exists_mem_of_forall₂ hall hmem
    exact hvu.isInstance ht h.registered (Descriptor.convertible_of_plain rfl)
      (hvs v (List.mem_of_mem_drop hv))

end Unified

theorem nestsWithin_one (hu : r.unifier = .promote) (hvs : ∀ v ∈ vs, r.types.WellFormed v)
    (h : ∀ us d, r.unified c site vs = .ok us →
      (c.representative us).type?.bind r.types.descriptor? ≠ some d) :
    r.NestsWithin 1 ⟨c, held, site, vs⟩ :=
  makesOnly_of_resolve fun a us ha htakes hus self self' _ => by
    obtain ⟨d, _, hrep, _⟩ := exists_promoted hu hvs ha htakes.representative_lt hus
    exact absurd hrep (h us d hus)

end Registry

/-- A call on well-formed operands comes to an end. Where its representative operand is unified to a
plain type, at most one call more than the type is deep is inside another, the call itself counted;
for a tensor type it is one more. Calls that reach no type make no nested calls. -/
theorem apply_nestsAtMost {r : Registry} (hr : r.Built) (ha : r.types.StockAccess)
    (hu : r.unifier = .promote) (hf : r.functions = Registry.empty.functions) {c : Call}
    (hc : c.Suited) {vs : List Value} (hvs : ∀ v ∈ vs, r.types.WellFormed v) {site : Site}
    (hh : c.mode = .inPlace → Handles site vs) (held : List Value) :
    (∀ us d, r.unified c site vs = .ok us →
      (c.representative us).type?.bind r.types.descriptor? = some d →
        r.NestsAtMost (d.ndim + if d.isTensor then 2 else 1) ⟨c, held, site, vs⟩) ∧
    ((∀ us d, r.unified c site vs = .ok us →
      (c.representative us).type?.bind r.types.descriptor? ≠ some d) →
        r.NestsAtMost 1 ⟨c, held, site, vs⟩) := by
  have ht : r.types.Regular := ⟨hr.sound, ha⟩
  refine ⟨fun us d hus hrep => ?_, fun h => ?_⟩
  · obtain ⟨key, _, hd⟩ := Option.bind_eq_some_iff.mp hrep
    have hdepth := r.types.ndim_le_depth (List.mem_of_getElem? hd)
    refine (Registry.nestsWithin_of_unified ht hu hvs hf hc hh hus hrep).nestsAtMost ?_
    split <;> omega
  · exact (Registry.nestsWithin_one hu hvs h).nestsAtMost (by omega)

/-- A division of rows in place: the call on the rows, those on two rows and those on scalars. -/
theorem apply_nestsAtMost_rows :
    let x := Stock.integerRows ⟨[0]⟩ [[6, 7], [6, 6]]
    let y := Stock.integerRows ⟨[1]⟩ [[2], [3, 0]]
    let c : Call := ⟨.inPlace, .floordiv, .method⟩
    c.Suited ∧ (∀ v ∈ [x, y], Stock.rowRegistry.types.WellFormed v) ∧ Handles ⟨[2]⟩ [x, y] ∧
      Stock.rowRegistry.unified c ⟨[2]⟩ [x, y] = .ok [x, y] ∧
      Stock.rowRegistry.NestsAtMost 3 ⟨c, [], ⟨[2]⟩, [x, y]⟩ := by
  intro x y c
  have hc : c.Suited := ⟨Op.noConfusion, .inl rfl⟩
  have hinst : ∀ v ∈ [x, y], Stock.rows.IsInstance v := by
    simp only [List.forall_mem_cons]
    exact ⟨Stock.isInstance_integerRows _ _, Stock.isInstance_integerRows _ _,
      List.forall_mem_nil _⟩
  have hd : Stock.rowRegistry.types.Registered Stock.rows := rfl
  have hvs : ∀ v ∈ [x, y], Stock.rowRegistry.types.WellFormed v := fun v hv =>
    .of_isInstance hd (hinst v hv)
  have hh : Handles ⟨[2]⟩ [x, y] := handles_pair (by decide) (by decide)
  have hus : Stock.rowRegistry.unified c ⟨[2]⟩ [x, y] = .ok [x, y] :=
    Registry.unified_of_instances hinst
  obtain ⟨hnests, _⟩ := apply_nestsAtMost Stock.built_rowRegistry Stock.stockAccess_rowRegistry rfl
    rfl hc hvs (fun _ => hh) []
  exact ⟨hc, hvs, hh, hus, hnests [x, y] Stock.rows hus rfl⟩

end ArrayDispatch
