import ArrayDispatch.Proofs.Dispatch.Representative
import ArrayDispatch.Proofs.Dispatch.WellFormed
import ArrayDispatch.Proofs.Stock.Lawful
import ArrayDispatch.Value.Equality

/-!
Calls whose mode does not fit their operation. The mode decides on the type of the result, and the
operation on what a kernel makes. Where elements are stored one by one they are brought to the kind
of the result; a kernel, and the elements of nested arrays, go into it as they are.
-/

namespace ArrayDispatch

namespace Call

/-- A call for masks that is no comparison, or a comparison that does not ask for masks. -/
inductive Mismatched : Call → Prop
  | masked {op : Op} (hop : op ≠ .richcmp) : Mismatched ⟨.richCompare, op, .method⟩
  | unmasked {mode : Mode} (hm : mode = .normal ∨ mode = .inPlace) (cmp : Comparison) :
      Mismatched ⟨mode, .richcmp, .compare cmp⟩

variable {c : Call}

namespace Mismatched

theorem mode_ne_select (h : c.Mismatched) : c.mode ≠ .select := by
  cases h with
  | masked hop => nofun
  | unmasked hm cmp => rcases hm with rfl | rfl <;> nofun

theorem inner (h : c.Mismatched) : c.inner.Mismatched := by
  cases h with
  | masked hop => exact .masked hop
  | unmasked hm cmp => rcases hm with rfl | rfl <;> exact .unmasked (.inl rfl) cmp

/-- Kernels of comparisons make booleans, and only the others are asked for masks. -/
theorem richcmp_iff (h : c.Mismatched) : c.op = .richcmp ↔ c.mode ≠ .richCompare := by
  cases h with
  | masked hop => simp [hop]
  | unmasked hm cmp => rcases hm with rfl | rfl <;> simp

end Mismatched

theorem inner_richCompare_iff (c : Call) :
    c.inner.mode = .richCompare ↔ c.mode = .richCompare := by
  obtain ⟨mode, op, slot⟩ := c
  cases mode <;> simp [inner, Mode.nested]

end Call

/-- What mismatched calls store on a type has the kind of their results: their kernels are those of
booleans, and where masks are stored among its elements, the elements are masks themselves. -/
def Descriptor.Tolerates (c : Call) : Descriptor → Prop
  | flat info kind _ => ∀ kernel, info.ops c.op = .native kernel → kind = .bool
  | nested _ element _ =>
    if c.mode = .richCompare then element.Tolerates c else element.maskType = element.key
  | tensor _ backing => backing.Tolerates c

theorem Descriptor.tolerates_inner {c : Call} {d : Descriptor} :
    d.Tolerates c.inner ↔ d.Tolerates c := by
  induction d with
  | flat info kind extent => exact Iff.rfl
  | nested info element extent ih => simp only [Tolerates, c.inner_richCompare_iff, ih]
  | tensor info backing ih => exact ih

namespace Registry

variable {r : Registry} {self : Dispatcher} {c : Call} {held us vs : List Value} {site : Site}
  {d m : Descriptor}

theorem hasMask_self (hl : r.types.Lawful) (hd : r.types.Registered d)
    (h : d.maskType = d.key) : d.HasMask d := by
  obtain ⟨m, hm, hmask⟩ := hl.hasMask d (TypeTable.Regular.mem_of_registered hd)
  exact TypeTable.eq_of_key_eq hd hm (hmask.key_eq.trans h) ▸ hmask

/-- The calls on elements are mismatched themselves where masks are asked for, and comparisons that
yield masks elsewhere. -/
theorem stores_of_mismatched (ht : r.types.Regular) (hl : r.types.Lawful)
    (hself : self.Faithful r.types) (hc : c.Mismatched) (hd : r.types.Registered d)
    (hm : r.types.Registered m) (htarget : c.Targets d m) (htol : d.Tolerates c)
    (hinner : ∀ e e', d.component? = some e → r.types.Registered e' → e.Tolerates c.inner →
      c.inner.Targets e e' → self.Returns r.types c.inner e e') : r.Stores self c d m := by
  refine ⟨fun hm => absurd hm hc.mode_ne_select, ?_, fun hp f hf us i ws s v w hfit hws hv hw => ?_,
    ?_⟩
  · rintro info kind extent info' kind' extent' kernel rfl rfl hop
    obtain ⟨_, _, heq⟩ := htarget.exists_flat
    injection heq with _ heq _
    rw [heq, htol kernel hop, ite_self, ite_self]
  · cases d with
    | flat info kind extent =>
      obtain ⟨info', extent', rfl⟩ := htarget.exists_flat
      exact TypeTable.hasItem_flat hw
    | nested info element extent =>
      obtain ⟨info', element', extent', rfl, helement⟩ := htarget.exists_nested
      have hde := ht.registered_component hd rfl
      have hde' := ht.registered_component hm rfl
      have hitems := hfit.elements ht hws
      cases hw
      cases hc with
      | masked hop =>
        cases hf
        exact (hinner element element' rfl hde' htol helement _ _ _ _ hitems.inner
          (Dispatcher.onElements_eq_ok_iff.mp hv)).isInstance
      | @unmasked mode hmode cmp =>
        -- elements are always compared for masks, which here are stored as elements
        cases hf
        have hne : mode ≠ .richCompare := by rcases hmode with rfl | rfl <;> decide
        cases htarget.eq_of_ne hne
        have hmask : element.HasMask element := by
          refine hasMask_self hl hde ?_
          rwa [Descriptor.Tolerates, if_neg hne] at htol
        have hreturns : self.Returns r.types ⟨.richCompare, .richcmp, .compare cmp⟩ element
            element :=
          hself.returns (.compare cmp) (by simp) hde hde (by rwa [Call.Targets, if_pos rfl])
        have hinstance := hitems.isInstance (by rcases hmode with rfl | rfl <;> simp)
        exact (hreturns _ _ _ _ (.of_instances hde hinstance)
          (Dispatcher.onElements_eq_ok_iff.mp hv)).isInstance
    | tensor info backing => cases hp
  · rintro info b info' b' rfl rfl
    obtain ⟨_, _, heq, hbacking⟩ := htarget.exists_tensor
    cases heq
    exact hinner b b' rfl (ht.registered_component hm rfl) (Descriptor.tolerates_inner.mpr htol)
      hbacking

section Nested

variable (ht : r.types.Regular) (hl : r.types.Lawful) (hu : r.unifier = .promote)

include ht hl hu

theorem returns_of_mismatched (hc : c.Mismatched) (hmode : c.mode ≠ .inPlace)
    (hd : r.types.Registered d) (hm : r.types.Registered m) (htarget : c.Targets d m)
    (htol : d.Tolerates c) (k : Nat) : (r.applyWithin k).Returns r.types c d m := by
  induction k generalizing d m with
  | zero => exact fun held site us w _ hw => by cases hw
  | succ k ih =>
    refine returns_step ht hl hu hmode hd hm htarget (stores_of_mismatched ht hl
      (faithful_applyWithin ht hl hu k) hc hd hm htarget htol fun e e' he hm' htol' htarget' => ?_)
    rw [Call.inner_eq hmode] at htol' htarget' ⊢
    exact ih (ht.registered_component hd he) hm' htarget' htol'

end Nested

/-! ## Results that no type describes -/

/-- What a kernel makes is not of the kind that the result type asks for. -/
theorem not_wellFormed_of_arrayCall (hl : r.types.Lawful) (hc : c.Mismatched) {info : TypeInfo}
    {kind : Kind} {extent : Extent} (h : r.Arranged c (.flat info kind extent) m us vs)
    (htol : ¬(Descriptor.flat info kind extent).Tolerates c) {w : Value}
    (hw : (r.arrayCall self c held site (.flat info kind extent) us vs).result =
      .ok (.value w)) : ¬r.types.WellFormed w := by
  obtain ⟨kernel, hop, hkind⟩ : ∃ kernel, info.ops c.op = .native kernel ∧ kind ≠ .bool := by
    simpa [Descriptor.Tolerates] using htol
  unfold arrayCall at hw
  cases hg : c.isUnordered (.flat info kind extent) with
  | true =>
    rw [hg] at hw
    cases hw
  | false =>
    have hop' : (Descriptor.flat info kind extent).op c.op = .native kernel := hop
    simp only [hg, Bool.false_eq_true, if_false, h.descriptor_eq, hop'] at hw
    cases hq : payloads us >>= kernel.run c.op c.slot with
    | error cause =>
      rw [hq] at hw
      cases hw
    | ok q =>
      obtain ⟨hform, _⟩ := maps_of_kernel hl h.registered h.fitting
        (fun hm => absurd hm hc.mode_ne_select) hop hq
      obtain ⟨b, hb, htype, hpayload⟩ := exists_finish_result held vs (c.movable? us vs)
        ⟨site, m.key, q⟩
      rw [hq] at hw
      cases hb.symm.trans hw
      intro hwell
      have hi := TypeTable.isInstance_of_type? h.registered_target hwell (congrArg some htype)
      obtain ⟨info', extent', rfl⟩ := h.targets.exists_flat
      have hform' : b.payload.form = _ := (congrArg Payload.form hpayload).trans hform
      injection hform'.symm.trans hi.form_eq with hsame
      by_cases hm : c.mode = .richCompare
      · have hne : c.op ≠ .richcmp := fun h => hc.richcmp_iff.mp h hm
        rw [if_neg hne, if_pos hm] at hsame
        exact hkind hsame
      · rw [if_pos (hc.richcmp_iff.mpr hm), if_neg hm] at hsame
        exact hkind hsame.symm

theorem not_wellFormed_of_tensorCall (ht : r.types.Regular) (h : r.Arranged c d m us vs)
    (hp : d.isTensor = true) (hinner : ∀ info backing, d = .tensor info backing → ∀ arrays w,
      Fitting r.types c.inner.mode backing arrays →
      (self c.inner [] (site.child 3) arrays).result = .ok (.value w) → ¬r.types.WellFormed w)
    {w : Value} (hw : (r.tensorCall self c held site us vs).result = .ok (.value w)) :
    ¬r.types.WellFormed w := by
  rcases h.tensorCall_cases ht self held site with
    ⟨cause, hcause⟩ | ⟨info, backing, shapes, dst, arrays, rfl, hs, hrec, _, hx, hcall⟩
  · rw [hcause] at hw
    cases hw
  · rw [hcall] at hw
    rcases hres : (self c.inner [] (site.child 3) arrays).result with e | ⟨⟨s | flat⟩ | _⟩ <;>
      rw [hres] at hw
    · cases hw
    · cases hw
    · obtain ⟨b, hb, htype, hpayload⟩ := exists_finish_result held vs (c.movable? us vs)
        ⟨site, c.resultType (.tensor info backing), .tensor flat dst⟩
      cases hb.symm.trans hw
      intro hwell
      have hkey : b.type = m.key := htype.trans h.targets.key_eq.symm
      have hi := TypeTable.isInstance_of_type? h.registered_target hwell (congrArg some hkey)
      have hfit := (h.fitting.expanded ht h.registered hx).inner
      refine hinner info backing rfl arrays _ hfit hres ?_
      obtain ⟨info', backing', rfl, _⟩ := h.targets.exists_tensor
      have hholds := hi.holds
      rw [hpayload] at hholds
      exact .of_isInstance (ht.registered_component h.registered_target rfl)
        (Descriptor.isInstance_array.mpr hholds.1)
    · cases hw

section Spoiled

variable (hl : r.types.Lawful) (hu : r.unifier = .promote) (hc : c.Mismatched)

include hl hu hc

theorem not_wellFormed_of_step (hmode : c.mode ≠ .inPlace) (hd : r.types.Registered d)
    (hp : d.isTensor = false) (hdim : d.ndim = 1) (htol : ¬d.Tolerates c)
    (hfit : Fitting r.types c.mode d us) {w : Value}
    (hw : (r.step self c held site us).result = .ok (.value w)) : ¬r.types.WellFormed w := by
  by_cases htakes : c.Takes us.length
  · obtain ⟨m, hm, htarget⟩ := Call.exists_targets hl c hd
    have h := arranged_of_fitting hmode hd hm htarget hfit htakes.representative_lt
    rw [step_of_fitting hu hd hfit htakes, Outcome.result_within, escaping_eq_ok_iff,
      h.resolve_eq, hp] at hw
    obtain ⟨info, kind, extent, rfl⟩ := Descriptor.exists_flat_of_ndim hp (Nat.le_of_eq hdim)
    exact not_wellFormed_of_arrayCall hl hc h htol hw
  · rw [step_of_not_takes htakes] at hw
    cases hw

/-- On flat arrays and tensors over them, what a call returns that stores another kind is not
well-formed. -/
theorem not_wellFormed_of_resolve (ht : r.types.Regular) (h : r.Arranged c d m us vs)
    (hdim : d.ndim = 1) (htol : ¬d.Tolerates c) {w : Value}
    (hw : (r.resolve (r.step self) c held site us vs).result = .ok (.value w)) :
    ¬r.types.WellFormed w := by
  rw [h.resolve_eq] at hw
  cases hp : d.isTensor with
  | false =>
    rw [hp] at hw
    obtain ⟨info, kind, extent, rfl⟩ := Descriptor.exists_flat_of_ndim hp (Nat.le_of_eq hdim)
    exact not_wellFormed_of_arrayCall hl hc h htol hw
  | true =>
    rw [hp] at hw
    refine not_wellFormed_of_tensorCall ht h hp (fun info backing hd arrays w hfit hres => ?_) hw
    subst hd
    exact not_wellFormed_of_step hl hu hc.inner c.inner_mode_ne
      (ht.registered_component h.registered rfl) (ht.component_isTensor h.registered rfl) hdim
      (fun hinner => htol (Descriptor.tolerates_inner.mp hinner)) hfit hres

end Spoiled

/-! ## Calls on any operands -/

section Operands

variable (ht : r.types.Regular) (hl : r.types.Lawful) (hu : r.unifier = .promote)
  (hc : c.Mismatched) (hvs : ∀ v ∈ vs, r.types.WellFormed v) (hh : Handles site vs)
  (hd : r.types.target vs = .ok d)

include ht hl hu hc hvs hh hd

theorem exists_arranged_of_target (hlt : c.mode.representative < vs.length)
    (h : r.unified c site vs = .ok us) : ∃ m, r.Arranged c d m us vs := by
  have htarget : r.types.target (vs.drop c.mode.representative) = .ok d := by
    rwa [Unifier.representative_eq_zero hc.mode_ne_select]
  obtain ⟨a, ha⟩ := TypeTable.exists_array_of_target hvs hd
  obtain ⟨d', m, harranged⟩ := exists_arranged ht hl hu hvs hh ha hlt h
  obtain ⟨_, hp, _⟩ := promoted_of_target hu hvs hlt htarget h
  obtain ⟨b, hb, _, hfind⟩ := hp.exists_representative
  obtain ⟨b', hb', _, hi⟩ := harranged.fitting.exists_representative harranged.representative_lt
  cases hb.symm.trans hb'
  have hfind' : r.types.descriptor? b.type = some d' := hi.type_eq ▸ harranged.registered
  cases hfind.symm.trans hfind'
  exact ⟨m, harranged⟩

theorem apply_cases_of_target (held : List Value) :
    (∃ e, r.apply c held site vs = .failed vs e) ∨
      ∃ k us m f, r.Arranged c d m us vs ∧ r.apply c held site vs =
        (r.resolve (r.step (r.applyWithin k)) c held site us vs).within f := by
  obtain ⟨k, hk⟩ := r.exists_apply_eq vs
  rw [hk]
  by_cases htakes : c.Takes vs.length
  · obtain ⟨a, ha⟩ := TypeTable.exists_array_of_target hvs hd
    rw [step_of_isArray htakes ha]
    cases hus : r.unified c site vs with
    | error e => exact .inl ⟨e, rfl⟩
    | ok us =>
      obtain ⟨m, h⟩ :=
        exists_arranged_of_target ht hl hu hc hvs hh hd htakes.representative_lt hus
      exact .inr ⟨k, us, m, _, h, rfl⟩
  · exact .inl ⟨_, step_of_not_takes htakes⟩

theorem apply_keeps_of_mismatched (htol : d.Tolerates c) (held : List Value) :
    (r.apply c held site vs).Keeps r.types r.types.WellFormed := by
  rcases apply_cases_of_target ht hl hu hc hvs hh hd held with ⟨e, he⟩ | ⟨k, us, m, f, h, he⟩
  · rw [he]
    exact Outcome.keeps_of_kept hvs rfl rfl
  · have hstores : r.Stores (r.applyWithin (k + 1)) c d m :=
      stores_of_mismatched ht hl (faithful_applyWithin ht hl hu _) hc h.registered
        h.registered_target h.targets htol fun e e' he hm' htol' htarget' =>
        returns_of_mismatched ht hl hu hc.inner c.inner_mode_ne
          (ht.registered_component h.registered he) hm' htarget' htol' _
    rw [he]
    exact ((resolve_keeps ht hstores h hl held site).within f).imp fun w hw =>
      .of_isInstance h.registered_target hw.isInstance

theorem not_wellFormed_of_apply (hdim : d.ndim = 1) (htol : ¬d.Tolerates c) {held : List Value}
    {w : Value} (hw : (r.apply c held site vs).result = .ok (.value w)) :
    ¬r.types.WellFormed w := by
  rcases apply_cases_of_target ht hl hu hc hvs hh hd held with ⟨e, he⟩ | ⟨k, us, m, f, h, he⟩
  · rw [he] at hw
    cases hw
  · rw [he, Outcome.result_within, escaping_eq_ok_iff] at hw
    exact not_wellFormed_of_resolve hl hu hc ht h hdim htol hw

end Operands

end Registry

/-- Mismatched calls in the stock registry. On a type whose kernels for the operation, if it has
any, are those of booleans, such a call returns well-formed values and leaves well-formed operands,
also where it fails; for comparisons that are not asked for masks, the elements of nested arrays
must moreover be their own masks. On any other flat type, and on tensors over one, whatever such a
call returns is not well-formed: it has the type that the mode asks for and holds what the kernel
has made. -/
theorem apply_mismatched {c : Call} (hc : c.Mismatched) {vs : List Value}
    (hvs : ∀ v ∈ vs, Stock.registry.types.WellFormed v) {site : Site} (hh : Handles site vs)
    {d : Descriptor} (hd : Stock.registry.types.target vs = .ok d) (held : List Value) :
    (d.Tolerates c → (Stock.registry.apply c held site vs).Keeps Stock.registry.types
        Stock.registry.types.WellFormed) ∧
      (d.ndim = 1 → ¬d.Tolerates c → ∀ w,
        (Stock.registry.apply c held site vs).result = .ok (.value w) →
          ¬Stock.registry.types.WellFormed w) := by
  have ht : Stock.registry.types.Regular :=
    ⟨Stock.built_registry.sound, Stock.stockAccess_registry⟩
  have hl := Stock.lawful_registry
  exact ⟨fun htol => Registry.apply_keeps_of_mismatched ht hl rfl hc hvs hh hd htol held,
    fun hdim htol w hw => Registry.not_wellFormed_of_apply ht hl rfl hc hvs hh hd hdim htol hw⟩

/-- The sums of integers are brought to truth values where masks are asked for. -/
theorem apply_mismatched_integers :
    let vs := [Stock.integerArray ⟨[0]⟩ [1, 0], Stock.integerArray ⟨[1]⟩ [2, 0]]
    let c : Call := ⟨.richCompare, .add, .method⟩
    let d : Descriptor := .flat Stock.integersInfo (.integer .int32) .dynamic
    c.Mismatched ∧ (∀ v ∈ vs, Stock.registry.types.WellFormed v) ∧ Handles ⟨[2]⟩ vs ∧
      Stock.registry.types.target vs = .ok d ∧ d.Tolerates c ∧
      (Stock.registry.apply c [] ⟨[2]⟩ vs).result =
        .ok (.value (.array ⟨⟨[2]⟩, Stock.boolX, .flat ⟨.bool, [true, false]⟩⟩)) ∧
      (Stock.registry.apply c [] ⟨[2]⟩ vs).Keeps Stock.registry.types
        Stock.registry.types.WellFormed := by
  intro vs c d
  have hc : c.Mismatched := .masked (by decide)
  have hh : Handles ⟨[2]⟩ vs := handles_pair (by decide) (by decide)
  have hd : Stock.registry.types.target vs = .ok d := rfl
  have hvs : ∀ v ∈ vs, Stock.registry.types.WellFormed v := by
    simp only [vs, List.forall_mem_cons]
    exact ⟨.of_isInstance Stock.registered_integers (Stock.isInstance_integerArray _ _),
      .of_isInstance Stock.registered_integers (Stock.isInstance_integerArray _ _),
      List.forall_mem_nil _⟩
  have htol : d.Tolerates c := fun kernel hop => by cases hop
  exact ⟨hc, hvs, hh, hd, htol, rfl, (apply_mismatched hc hvs hh hd []).1 htol⟩

/-- Those of floats, which a kernel makes, become masks of floats. -/
theorem apply_mismatched_floats :
    let vs := [Stock.floatArray ⟨[0]⟩ [.ofMagnitude false 0x3f800000],
      Stock.floatArray ⟨[1]⟩ [.ofMagnitude false 0x40000000]]
    let c : Call := ⟨.richCompare, .add, .method⟩
    c.Mismatched ∧ (∀ v ∈ vs, Stock.registry.types.WellFormed v) ∧ Handles ⟨[2]⟩ vs ∧
      ∃ w, (Stock.registry.apply c [] ⟨[2]⟩ vs).result = .ok (.value w) ∧
        w.equals (.array ⟨⟨[2]⟩, Stock.boolX,
          .flat ⟨.float .single, [.ofMagnitude false 0x40400000]⟩⟩) = true ∧
        ¬Stock.registry.types.WellFormed w := by
  intro vs c
  have hc : c.Mismatched := .masked (by decide)
  have hh : Handles ⟨[2]⟩ vs := handles_pair (by decide) (by decide)
  have hvs : ∀ v ∈ vs, Stock.registry.types.WellFormed v := by
    simp only [vs, List.forall_mem_cons]
    exact ⟨Stock.wellFormed_floatArray _ _, Stock.wellFormed_floatArray _ _,
      List.forall_mem_nil _⟩
  have hd : Stock.registry.types.target vs =
      .ok (Stock.floatsType "Float32X" Stock.float32X .single) := rfl
  have htol : ¬(Stock.floatsType "Float32X" Stock.float32X .single).Tolerates c := fun h => by
    cases h .add rfl
  obtain ⟨w, hw, hequals⟩ : ∃ w, (Stock.registry.apply c [] ⟨[2]⟩ vs).result = .ok (.value w) ∧
      w.equals (.array ⟨⟨[2]⟩, Stock.boolX,
        .flat ⟨.float .single, [.ofMagnitude false 0x40400000]⟩⟩) = true :=
    Outcome.exists_of_any_value? (by decide +kernel)
  exact ⟨hc, hvs, hh, w, hw, hequals, Registry.not_wellFormed_of_apply
    ⟨Stock.built_registry.sound, Stock.stockAccess_registry⟩ Stock.lawful_registry rfl hc hvs hh hd
    rfl htol hw⟩

end ArrayDispatch
