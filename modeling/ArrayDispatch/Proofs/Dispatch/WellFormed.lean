import ArrayDispatch.Proofs.Dispatch.Generic
import ArrayDispatch.Proofs.Dispatch.Result
import ArrayDispatch.Proofs.Dispatch.Tensor

/-!
Calls keep values well-formed. Whatever carries out a call, a kernel, a loop into new storage, one
into that of operand 0, which may stop halfway, or a call on the backing arrays of tensors, its
result belongs to the type that the call asks for.
-/

namespace ArrayDispatch

namespace Fitting

variable {t : TypeTable} {c : Call} {d : Descriptor} {us : List Value}

theorem inner (h : Fitting t c.mode d us) : Fitting t c.inner.mode d us := by
  obtain ⟨hmasks, hvalues⟩ := h
  rw [← c.inner_representative] at hmasks hvalues
  exact ⟨hmasks, hvalues⟩

end Fitting

namespace Registry

/-- The operands `vs` of a call have been unified to operands `us` that fit the type `d`, its
results have the type `m`, and the object that it writes, if it writes one, is operand 0. -/
structure Arranged (r : Registry) (c : Call) (d m : Descriptor) (us vs : List Value) : Prop where
  registered : r.types.Registered d
  registered_target : r.types.Registered m
  targets : c.Targets d m
  fitting : Fitting r.types c.mode d us
  representative_lt : c.mode.representative < us.length
  wellFormed : ∀ v ∈ vs, r.types.WellFormed v
  written : ∀ a, c.movable? us vs = some a →
    us.head? = some (.array a) ∧ ∀ u ∈ us, u.id? = some a.id → u = .array a

/-- Operands of a proper call that have been unified. -/
structure Prepared (r : Registry) (c : Call) (d m : Descriptor) (us vs : List Value) : Prop
    extends r.Arranged c d m us vs where
  proper : c.Proper

/-- What a call on the type `d` stores in its results belongs into the type `m`: what its kernels
make, what the calls on elements return, which go to `dispatch`, and what that on backing arrays
does. -/
structure Stores (r : Registry) (dispatch : Dispatcher) (c : Call) (d m : Descriptor) : Prop where
  select : c.mode = .select → c.op = .select
  kernel : ∀ info kind extent info' kind' extent' kernel, d = .flat info kind extent →
    m = .flat info' kind' extent' → info.ops c.op = .native kernel →
    (if c.op = .richcmp then Kind.bool else kind) = kind'
  item : d.isTensor = false → ∀ counterpart, r.counterpart dispatch c = .ok counterpart →
    ∀ us i ws s v w, Fitting r.types c.mode d us → Elements us i ws → counterpart s ws = .ok v →
      m.form.admit? v = some w → m.HasItem w
  backing : ∀ info b info' b', d = .tensor info b → m = .tensor info' b' →
    dispatch.Returns r.types c.inner b b'

variable {r : Registry} {self : Dispatcher} {c : Call} {held us vs : List Value} {site : Site}
  {d m : Descriptor} {lens : List Nat} {n : Nat}

namespace Arranged

variable (h : r.Arranged c d m us vs)

include h

theorem arrays : r.Arrays us := by
  intro u hu
  obtain ⟨e, he, _, hi⟩ := h.fitting.exists_isInstance h.registered hu
  exact ⟨e, he, hi⟩

theorem isTensor_eq : m.isTensor = d.isTensor := h.targets.parallels.isTensor_eq

theorem admits (hl : Lengths us lens) (hr : Reconciles lens n) : m.extent.Admits n :=
  h.targets.parallels.extent.admits (h.fitting.admits h.representative_lt hl hr)

theorem descriptor_eq : r.types.descriptor (c.resultType d) = .ok m := by
  rw [TypeTable.descriptor_eq_ok_iff, ← h.targets.key_eq]
  exact h.registered_target

theorem exists_representative :
    ∃ a, c.representative us = .array a ∧ r.types.descriptor? a.type = some d := by
  obtain ⟨a, ha, _, hi⟩ := h.fitting.exists_representative h.representative_lt
  refine ⟨a, ha, ?_⟩
  rw [hi.type_eq]
  exact h.registered

theorem resolve_eq (self : Dispatcher) (held : List Value) (site : Site) :
    r.resolve self c held site us vs =
      if d.isTensor then r.tensorCall self c held site us vs
      else r.arrayCall self c held site d us vs := by
  obtain ⟨a, ha, hfind⟩ := h.exists_representative
  exact resolve_of_representative ha hfind vs

theorem kept {o : Outcome} (ho : o.operands = vs) (hr : o.value? = none) :
    o.Keeps r.types (Returned m us) :=
  Outcome.keeps_of_kept h.wellFormed ho hr

end Arranged

/-- Operands that fit a type already are not unified, and a call that does not work in place writes
none of them. -/
theorem arranged_of_fitting (hmode : c.mode ≠ .inPlace) (hd : r.types.Registered d)
    (hm : r.types.Registered m) (htarget : c.Targets d m) (hfit : Fitting r.types c.mode d us)
    (hlt : c.mode.representative < us.length) : r.Arranged c d m us us := by
  refine ⟨hd, hm, htarget, hfit, hlt, fun u hu => ?_, fun a ha => ?_⟩
  · obtain ⟨e, he, _, hi⟩ := hfit.exists_isInstance hd hu
    exact .of_isInstance he hi
  · exact absurd (Call.movable?_eq_some_iff.mp ha).1 hmode

theorem prepared_of_fitting (hc : c.Proper) (hmode : c.mode ≠ .inPlace)
    (hd : r.types.Registered d) (hm : r.types.Registered m) (htarget : c.Targets d m)
    (hfit : Fitting r.types c.mode d us) (hlt : c.mode.representative < us.length) :
    r.Prepared c d m us us :=
  ⟨arranged_of_fitting hmode hd hm htarget hfit hlt, hc⟩

theorem returned_of_length {b : Object} (hb : m.IsInstance (.array b)) (hl : Lengths us lens)
    (hr : Reconciles lens n) (hn : b.length = n) : Returned m us (.array b) := by
  refine ⟨hb, fun _ lens' n' hl' hr' => ?_⟩
  cases hl.unique hl'
  exact congrArg some (hn.trans (hr.unique hr'))

/-! ## Kernels -/

theorem forall₂_of_payloads {ps : List Payload} (h : payloads us = .ok ps) :
    List.Forall₂ (fun u p => ∃ a, u = .array a ∧ a.payload = p) us ps := by
  refine (mapM_eq_ok_iff.mp h).imp fun u p hp => ?_
  cases u with
  | scalar s => cases hp
  | array a =>
    cases hp
    exact ⟨a, rfl, rfl⟩

theorem lengths_of_payloads {ps : List Payload} (h : payloads us = .ok ps) :
    Lengths us (ps.map Payload.length) := by
  refine List.forall₂_map_right_iff.mpr ((forall₂_of_payloads h).imp ?_)
  rintro _ _ ⟨a, rfl, rfl⟩
  rfl

theorem maps_of_kernel (hl : r.types.Lawful) {info : TypeInfo} {kind : Kind} {extent : Extent}
    (hd : r.types.Registered (.flat info kind extent))
    (hfit : Fitting r.types c.mode (.flat info kind extent) us)
    (hselect : c.mode = .select → c.op = .select) {kernel : Kernel}
    (hop : info.ops c.op = .native kernel) {q : Payload}
    (hq : (payloads us >>= kernel.run c.op c.slot) = .ok q) :
    q.form = .flat (if c.op = .richcmp then .bool else kind) ∧
      ∃ lens, Lengths us lens ∧ Reconciles lens q.length := by
  obtain ⟨hne, hmaps⟩ := hl.kernelsFit _ (TypeTable.Regular.mem_of_registered hd) c.op kernel hop
  obtain ⟨ps, hps, hq⟩ := bind_eq_ok_iff.mp hq
  have hinstance := hfit.isInstance fun hm => hne (hselect hm)
  have hform : ∀ p ∈ ps, p.form = .flat kind := by
    intro p hp
    obtain ⟨u, hu, a, rfl, rfl⟩ := exists_mem_of_forall₂ (forall₂_of_payloads hps) hp
    exact (hinstance _ hu).form_eq
  obtain ⟨hqform, hr⟩ := hmaps c.op c.slot ps q hform hq
  exact ⟨hqform, _, lengths_of_payloads hps, hr⟩

theorem returned_of_kernel (hl : r.types.Lawful) (hs : r.Stores self c d m)
    (h : r.Arranged c d m us vs) {kernel : Kernel} (hop : d.op c.op = .native kernel) {q : Payload}
    (hq : (payloads us >>= kernel.run c.op c.slot) = .ok q) :
    Returned m us (.array ⟨site, m.key, q⟩) := by
  have hfit := hl.kernelsFit d (TypeTable.Regular.mem_of_registered h.registered)
  cases d with
  | flat info kind extent =>
    obtain ⟨hqform, lens, hlengths, hr⟩ :=
      maps_of_kernel hl h.registered h.fitting hs.select hop hq
    have hadm := h.admits hlengths hr
    obtain ⟨info', extent', rfl⟩ := h.targets.exists_flat
    obtain ⟨b, rfl, hb⟩ := Payload.form_eq_flat_iff.mp hqform
    rw [hs.kernel _ _ _ _ _ _ _ rfl rfl hop] at hb
    exact returned_of_length ⟨_, rfl, rfl, hb, hadm⟩ hlengths hr rfl
  | nested info element extent => exact absurd hop (hfit c.op kernel)
  | tensor info backing => exact absurd hop (hfit c.op kernel)

/-! ## The generic loop -/

theorem counterpart_eq (hc : c.Proper) :
    r.counterpart self c = .ok fun site args => self.onElements r.types site c.inner args := by
  cases hc <;> rfl

theorem stores_of_proper (ht : r.types.Regular) (hself : self.Faithful r.types) (hc : c.Proper)
    (hd : r.types.Registered d) (hm : r.types.Registered m) (htarget : c.Targets d m) :
    r.Stores self c d m := by
  refine ⟨hc.op_eq_select, ?_, fun hp f hf us i ws s v w hfit hws hv hw => ?_, ?_⟩
  · rintro info kind extent info' kind' extent' kernel rfl rfl _
    obtain ⟨info'', extent'', heq⟩ := htarget.exists_flat
    simp only [← hc.richCompare_iff]
    injection heq with _ heq _
    exact heq.symm
  · rw [counterpart_eq hc] at hf
    cases hf
    cases d with
    | flat info kind extent =>
      obtain ⟨info', extent', rfl⟩ := htarget.exists_flat
      exact TypeTable.hasItem_flat hw
    | nested info element extent =>
      obtain ⟨info', element', extent', rfl, helement⟩ := htarget.exists_nested
      cases hw
      have hreturns := hself.returns hc.inner c.inner_mode_ne (ht.registered_component hd rfl)
        (ht.registered_component hm rfl) helement
      exact (hreturns _ _ _ _ (hfit.elements ht hws).inner
        (Dispatcher.onElements_eq_ok_iff.mp hv)).isInstance
    | tensor info backing => cases hp
  · rintro info b info' b' rfl rfl
    obtain ⟨_, _, heq, hbacking⟩ := htarget.exists_tensor
    cases heq
    exact hself.returns hc.inner c.inner_mode_ne (ht.registered_component hd rfl)
      (ht.registered_component hm rfl) hbacking

section Loops

variable {l : Loop} (h : r.Arranged c d m us vs) (hp : d.isTensor = false)
  (hproduces : l.Produces us m) (hl : Lengths us lens) (hr : Reconciles lens n)

include h hp hproduces hl hr

theorem intoNew_keeps (hm : l.target = m) (held : List Value) (site : Site)
    (hreads : l.Reads us n (m.alloc site n)) (target : Option Object) :
    (l.intoNew held site n target vs).Keeps r.types (Returned m us) := by
  have hpm : m.isTensor = false := h.isTensor_eq.trans hp
  unfold Loop.intoNew
  rw [hm]
  rcases hrun : l.run (m.alloc site n) n with ⟨e | u, q⟩
  · exact h.kept rfl rfl
  · have hq := hreads.run_filledTo.1 q hrun
    have hholds : m.Holds q := hq.holds_of_alloc hproduces hpm (h.admits hl hr)
    have hinstance : m.IsInstance (.array ⟨site, m.key, q⟩) := ⟨_, rfl, rfl, hholds⟩
    have hlen : q.length = n := hq.length_eq.trans (m.length_alloc hpm site n)
    exact finish_keeps h.registered_target h.wellFormed
      (returned_of_length hinstance hl hr hlen) held target

/-- A loop into the storage of operand 0 leaves an instance of its type also where it stops. -/
theorem intoOperand_keeps {a : Object} (hmov : c.movable? us vs = some a) (hlen : a.length = n)
    (hreads : l.Reads us n a.payload) (unique : Bool) :
    (l.intoOperand a unique site n vs).Keeps r.types (Returned m us) := by
  have hmode := (Call.movable?_eq_some_iff.mp hmov).1
  have hmd : m = d := h.targets.eq_of_ne (by rw [hmode]; decide)
  have hpm : m.isTensor = false := h.isTensor_eq.trans hp
  have ha : m.IsInstance (.array a) := by
    rw [hmd]
    exact h.fitting.isInstance (by rw [hmode]; decide) _
      (List.mem_of_head? (h.written a hmov).1)
  have hfilled : ∀ i q id, l.FilledTo us a.payload i q →
      Returned m us (.array ⟨id, a.type, q⟩) := by
    intro i q id hq
    have hholds : m.Holds q := hq.holds hproduces hpm ha.form_eq ha.admits
      fun j v _ hv => Descriptor.hasItem_of_holds ha.holds hv
    have hinstance : m.IsInstance (.array ⟨id, a.type, q⟩) := ⟨_, rfl, ha.type_eq, hholds⟩
    exact returned_of_length hinstance hl hr (hq.length_eq.trans hlen)
  have hwellFormed : ∀ i q id, l.FilledTo us a.payload i q →
      ∀ v ∈ replaceObject a.id ⟨id, a.type, q⟩ vs, r.types.WellFormed v := fun i q id hq =>
    wellFormed_replaceObject h.wellFormed
      (.of_isInstance h.registered_target (hfilled i q id hq).isInstance) a.id
  unfold Loop.intoOperand
  rcases hrun : l.run a.payload n with ⟨e | u, q⟩
  · obtain ⟨i, _, hq, _⟩ := hreads.run_filledTo.2 e q hrun
    refine ⟨fun w hw => ?_, hwellFormed i q _ hq⟩
    cases hw
  · have hq := hreads.run_filledTo.1 q hrun
    refine ⟨fun w hw => ?_, hwellFormed n q _ hq⟩
    cases hw
    exact hfilled n q _ hq

end Loops

/-! ## Tensors -/

section Backing

variable {info : TypeInfo} {backing : Descriptor} {shapes : List (List Nat)}
  (ht : r.types.Regular) (h : r.Arranged c (.tensor info backing) m us vs)
  (hs : Shapes us shapes)

include ht h hs

theorem Arranged.tensorCall_of_reconcile_eq_error {cause : Cause}
    (hrec : Shape.reconcile shapes = .error cause) (self : Dispatcher) (held : List Value)
    (site : Site) : r.tensorCall self c held site us vs = .failedBy vs cause := by
  obtain ⟨a, ha, hfind⟩ := h.exists_representative
  unfold tensorCall
  rw [tensorParts_of_representative ha hfind,
    expandAll_of_reconcile_eq_error ht (h.fitting.tensors h.registered) hs hrec]
  rfl

theorem Arranged.tensorCall_of_not_fits {dst : List Nat} (hrec : Shape.reconcile shapes = .ok dst)
    (hfits : ¬Shape.Fits dst) (self : Dispatcher) (held : List Value) (site : Site) :
    r.tensorCall self c held site us vs = .failedBy vs .overflow := by
  obtain ⟨a, ha, hfind⟩ := h.exists_representative
  unfold tensorCall
  rw [tensorParts_of_representative ha hfind,
    expandAll_of_not_fits ht (h.fitting.tensors h.registered) hs hrec hfits]
  rfl

theorem Arranged.exists_tensorCall_eq {dst : List Nat} (hrec : Shape.reconcile shapes = .ok dst)
    (hfits : Shape.Fits dst) (self : Dispatcher) (held : List Value) (site : Site) :
    ∃ arrays, List.Forall₂ (Value.Expanded dst) us arrays ∧
      r.tensorCall self c held site us vs =
        match (self c.inner [] (site.child 3) arrays).result with
        | .ok (.value (.array flat)) =>
          finish held vs (c.movable? us vs)
            ⟨site, c.resultType (.tensor info backing), .tensor flat dst⟩
        | .ok (.value (.scalar s)) => .failedBy vs (.type (.tensorScalar s))
        | .ok .notImplemented => .unsupported vs
        | .error e => .failed vs e := by
  obtain ⟨a, ha, hfind⟩ := h.exists_representative
  obtain ⟨arrays, harrays, hx⟩ :=
    exists_expandAll ht (h.fitting.tensors h.registered) hs hrec hfits (site.child 2)
  refine ⟨arrays, hx, ?_⟩
  unfold tensorCall
  rw [tensorParts_of_representative ha hfind, harrays]
  rfl

end Backing

/-- A call on tensors fails before it has backing arrays of one shape, or goes by what the call on
these leads to. -/
theorem Arranged.tensorCall_cases (ht : r.types.Regular) (h : r.Arranged c d m us vs)
    (self : Dispatcher) (held : List Value) (site : Site) :
    (∃ cause, r.tensorCall self c held site us vs = .failedBy vs cause) ∨
      ∃ info backing shapes dst arrays, d = .tensor info backing ∧ Shapes us shapes ∧
        Shape.reconcile shapes = .ok dst ∧ Shape.Fits dst ∧
        List.Forall₂ (Value.Expanded dst) us arrays ∧
        r.tensorCall self c held site us vs =
          match (self c.inner [] (site.child 3) arrays).result with
          | .ok (.value (.array flat)) =>
            finish held vs (c.movable? us vs)
              ⟨site, c.resultType (.tensor info backing), .tensor flat dst⟩
          | .ok (.value (.scalar s)) => .failedBy vs (.type (.tensorScalar s))
          | .ok .notImplemented => .unsupported vs
          | .error e => .failed vs e := by
  obtain ⟨a, ha, hfind⟩ := h.exists_representative
  have hparts : r.tensorParts c site us = _ := tensorParts_of_representative ha hfind
  cases d with
  | flat info kind extent =>
    unfold tensorCall
    rw [hparts]
    exact .inl ⟨_, rfl⟩
  | nested info element extent =>
    unfold tensorCall
    rw [hparts]
    exact .inl ⟨_, rfl⟩
  | tensor info backing =>
    obtain ⟨shapes, hs⟩ := exists_shapes (h.fitting.tensors h.registered)
    cases hrec : Shape.reconcile shapes with
    | error cause =>
      exact .inl ⟨cause, h.tensorCall_of_reconcile_eq_error ht hs hrec self held site⟩
    | ok dst =>
      by_cases hfits : Shape.Fits dst
      · obtain ⟨arrays, hx, hcall⟩ := h.exists_tensorCall_eq ht hs hrec hfits self held site
        exact .inr ⟨info, backing, shapes, dst, arrays, rfl, hs, hrec, hfits, hx, hcall⟩
      · exact .inl ⟨_, h.tensorCall_of_not_fits ht hs hrec hfits self held site⟩

/-- The result of a call on expanded backing arrays has an element for every position of the common
shape, since this is the length on which they agree. -/
theorem returned_of_backing (ht : r.types.Regular) {info : TypeInfo} {backing : Descriptor}
    (hstores : r.Stores self c (.tensor info backing) m)
    (h : r.Arranged c (.tensor info backing) m us vs) {shapes : List (List Nat)} {dst : List Nat}
    {arrays : List Value} (hs : Shapes us shapes) (hrec : Shape.reconcile shapes = .ok dst)
    (hfits : Shape.Fits dst) (hx : List.Forall₂ (Value.Expanded dst) us arrays) {s : Site}
    {flat : Object}
    (hres : (self c.inner [] s arrays).result = .ok (.value (.array flat))) :
    Returned m us (.array ⟨site, c.resultType (.tensor info backing), .tensor flat dst⟩) := by
  have hkey := h.targets.key_eq
  have hd := h.registered
  have hm := h.registered_target
  obtain ⟨info', backing', rfl, _⟩ := h.targets.exists_tensor
  obtain ⟨hi, hlen⟩ := hstores.backing _ _ _ _ rfl rfl [] s arrays (.array flat)
    (h.fitting.expanded ht hd hx).inner hres
  have hne : shapes ≠ [] := by
    rintro rfl
    cases hs
    exact absurd h.representative_lt (Nat.not_lt_zero _)
  have hsize := hlen (ht.component_isTensor hm rfl) _ _ (lengths_of_expanded hx hs)
    (Shape.reconciles_expandedLengths hrec hne)
  refine ⟨⟨_, rfl, hkey.symm, Descriptor.isInstance_array.mp hi, Option.some.inj hsize, hfits⟩, ?_⟩
  intro hp
  cases hp

/-! ## Calls on one type -/

section Calls

variable (ht : r.types.Regular) (hstores : r.Stores self c d m) (h : r.Arranged c d m us vs)

include ht hstores h

theorem loopCall_keeps (hp : d.isTensor = false) :
    (r.loopCall self c held site d m us vs).Keeps r.types (Returned m us) := by
  obtain ⟨lens, hl⟩ := exists_lengths h.arrays
  have hlens : lens ≠ [] := by
    rintro rfl
    cases hl
    exact absurd h.representative_lt (Nat.not_lt_zero _)
  have htarget := ht.access_of_registered h.registered_target
  unfold loopCall
  rcases hcp : r.counterpart self c with cause | counterpart
  · unfold loopParts
    rw [hcp]
    exact h.kept rfl rfl
  rw [loopParts_of_arrays ht h.arrays hl hcp]
  cases hrec : reconcileLengths lens with
  | error cause => exact h.kept rfl rfl
  | ok n =>
    have hr := (reconcileLengths_eq_ok_iff_reconciles hlens).mp hrec
    have hproduces : ∀ sources, Loop.Produces ⟨r.types, m, counterpart, sources, site.child 4⟩
        us m := fun _ _ _ _ _ hws hv hw =>
      hstores.item hp counterpart hcp us _ _ _ _ _ h.fitting hws hv hw
    have hnew := intoNew_keeps h hp (hproduces _) hl hr rfl held site
      (reads_of_arrays ht h.arrays hl htarget _ _ n _)
    simp only [Except.map]
    cases hmov : c.movable? us vs with
    | none => exact hnew none
    | some a =>
      cases hfits : d.extent.fixed?.isSome || lens.head? == some n with
      | false => exact hnew (some a)
      | true =>
        obtain ⟨ha, hsame⟩ := h.written a hmov
        have hmode := (Call.movable?_eq_some_iff.mp hmov).1
        have hinstance := h.fitting.isInstance (by rw [hmode]; decide)
        have hlen : a.length = n := length_eq_of_fits hinstance hl hr ha hfits
        exact intoOperand_keeps h hp (hproduces _) hl hr hmov hlen
          (reads_inPlace ht h.arrays hl htarget hsame (by omega) _ _) _

theorem arrayCall_keeps (hl : r.types.Lawful) (hp : d.isTensor = false) :
    (r.arrayCall self c held site d us vs).Keeps r.types (Returned m us) := by
  unfold arrayCall
  cases c.isUnordered d with
  | true => exact h.kept rfl rfl
  | false =>
    simp only [Bool.false_eq_true, if_false, h.descriptor_eq]
    cases hop : d.op c.op with
    | unsupported => exact h.kept rfl rfl
    | native kernel =>
      simp only
      cases hq : payloads us >>= kernel.run c.op c.slot with
      | error cause => exact h.kept rfl rfl
      | ok q =>
        exact finish_keeps h.registered_target h.wellFormed (returned_of_kernel hl hstores h hop hq)
          held _
    | generic => exact loopCall_keeps ht hstores h hp

theorem tensorCall_keeps (held : List Value) (site : Site) :
    (r.tensorCall self c held site us vs).Keeps r.types (Returned m us) := by
  rcases h.tensorCall_cases ht self held site with
    ⟨cause, hcause⟩ | ⟨info, backing, shapes, dst, arrays, rfl, hs, hrec, hfits, hx, hcall⟩
  · rw [hcause]
    exact h.kept rfl rfl
  · rw [hcall]
    rcases hres : (self c.inner [] (site.child 3) arrays).result with e | ⟨⟨s | flat⟩ | _⟩
    · exact h.kept rfl rfl
    · exact h.kept rfl rfl
    · exact finish_keeps h.registered_target h.wellFormed
        (returned_of_backing ht hstores h hs hrec hfits hx hres) held _
    · exact h.kept rfl rfl

theorem resolve_keeps (hl : r.types.Lawful) (held : List Value) (site : Site) :
    (r.resolve self c held site us vs).Keeps r.types (Returned m us) := by
  rw [h.resolve_eq]
  cases hp : d.isTensor with
  | true => exact tensorCall_keeps ht hstores h held site
  | false => exact arrayCall_keeps ht hstores h hl hp

end Calls

/-! ## Nested calls -/

section Faithful

variable (ht : r.types.Regular) (hl : r.types.Lawful) (hu : r.unifier = .promote)

include ht hl hu

theorem returns_step (hmode : c.mode ≠ .inPlace) (hd : r.types.Registered d)
    (hm : r.types.Registered m) (htarget : c.Targets d m) (hstores : r.Stores self c d m) :
    (r.step self).Returns r.types c d m := by
  intro held site us w hfit hw
  by_cases htakes : c.Takes us.length
  · have h := arranged_of_fitting hmode hd hm htarget hfit htakes.representative_lt
    rw [step_of_fitting hu hd hfit htakes] at hw
    exact ((resolve_keeps ht hstores h hl held site).within _).value w hw
  · rw [step_of_not_takes htakes] at hw
    cases hw

theorem faithful_step (hself : self.Faithful r.types) : (r.step self).Faithful r.types :=
  fun _ _ _ _ _ _ _ hc hmode hd hm htarget hfit hw =>
    returns_step ht hl hu hmode hd hm htarget (stores_of_proper ht hself hc hd hm htarget) _ _ _ _
      hfit hw

/-- Calls are faithful however deep they may nest. -/
theorem faithful_applyWithin (k : Nat) : (r.applyWithin k).Faithful r.types := by
  induction k with
  | zero =>
    intro c held site d m us w _ _ _ _ _ _ hw
    cases hw
  | succ k ih => exact faithful_step ht hl hu ih

end Faithful

/-! ## Calls on any operands -/

theorem scalarCall_keeps {t : TypeTable} (hvs : ∀ v ∈ vs, t.WellFormed v) (c : Call)
    (ss : List Scalar) : (scalarCall c ss vs).Keeps t t.WellFormed := by
  unfold scalarCall
  cases Scalar.eval c.op c.slot ss with
  | error cause => exact Outcome.keeps_of_kept hvs rfl rfl
  | ok s =>
    refine ⟨fun w hw => ?_, fun v hv => ?_⟩
    · cases hw
      trivial
    · change v ∈ (if c.mode = .inPlace then vs.set 0 (.scalar s) else vs) at hv
      split at hv
      · rcases List.mem_or_eq_of_mem_set hv with hv | rfl
        · exact hvs v hv
        · trivial
      · exact hvs v hv

theorem tensorParts_of_scalars (r : Registry) (c : Call) (site : Site) (ss : List Scalar) :
    ∃ cause, r.tensorParts c site (ss.map .scalar) = .error cause := by
  unfold tensorParts
  rw [Call.representative_scalars]
  exact ⟨_, rfl⟩

section Operands

variable (ht : r.types.Regular) (hl : r.types.Lawful) (hu : r.unifier = .promote)
  (hc : c.Proper) (hvs : ∀ v ∈ vs, r.types.WellFormed v) (hh : Handles site vs)

include ht hl hu hvs hh

theorem exists_arranged {a : Object} (ha : .array a ∈ vs)
    (hlt : c.mode.representative < vs.length) (h : r.unified c site vs = .ok us) :
    ∃ d m, r.Arranged c d m us vs := by
  obtain ⟨d, hd, hfit, hlen⟩ := exists_fitting ht hl hu hvs ha hlt h
  obtain ⟨m, hm, htarget⟩ := Call.exists_targets hl c hd
  refine ⟨d, m, hd, hm, htarget, hfit, hlen ▸ hlt, hvs, fun b hb => ?_⟩
  have hmode : c.mode ≠ .select := by
    rw [(Call.movable?_eq_some_iff.mp hb).1]
    decide
  obtain ⟨e, hunified, _⟩ := exists_unifiedTo ht hu hvs hh hmode ha h
  obtain ⟨hhead, hfirst⟩ := hunified.head?_of_movable? hb
  exact ⟨hhead, hunified.eq_of_id? b hfirst⟩

include hc

theorem apply_keeps (held : List Value) :
    (r.apply c held site vs).Keeps r.types r.types.WellFormed := by
  obtain ⟨k, hk⟩ := r.exists_apply_eq vs
  rw [hk]
  by_cases htakes : c.Takes vs.length
  · rcases Value.exists_scalars_or_array vs with ⟨ss, rfl⟩ | ⟨a, ha⟩
    · rw [step_scalars (by simpa using htakes)]
      exact scalarCall_keeps hvs c ss
    · rw [step_of_isArray htakes ha]
      cases hus : r.unified c site vs with
      | error e => exact Outcome.keeps_of_kept hvs rfl rfl
      | ok us =>
        obtain ⟨d, m, h⟩ := exists_arranged ht hl hu hvs hh ha htakes.representative_lt hus
        have hstores := stores_of_proper ht (faithful_applyWithin ht hl hu (k + 1)) hc h.registered
          h.registered_target h.targets
        have hkeeps := resolve_keeps ht hstores h hl held site
        exact (hkeeps.within _).imp fun w hw => .of_isInstance h.registered_target hw.isInstance
  · rw [step_of_not_takes htakes]
    exact Outcome.keeps_of_kept hvs rfl rfl

theorem applyTensor_keeps (held : List Value) :
    (r.applyTensor c held site vs).Keeps r.types r.types.WellFormed := by
  unfold applyTensor
  simp only
  split
  · exact Outcome.keeps_of_kept hvs rfl rfl
  · rename_i hcount
    cases hus : r.unified c site vs with
    | error e => exact Outcome.keeps_of_kept hvs rfl rfl
    | ok us =>
      rcases Value.exists_scalars_or_array vs with ⟨ss, rfl⟩ | ⟨a, ha⟩
      · obtain ⟨cause, hcause⟩ := tensorParts_of_scalars r c site ss
        simp only [tensorCall, eq_of_unified_scalars hu hus, hcause]
        exact Outcome.keeps_of_kept hvs rfl rfl
      · obtain ⟨d, m, h⟩ := exists_arranged ht hl hu hvs hh ha (by omega) hus
        have hstores := stores_of_proper ht (faithful_applyWithin ht hl hu (r.levels vs)) hc
          h.registered h.registered_target h.targets
        have hkeeps := tensorCall_keeps ht hstores h held site
        exact (hkeeps.within _).imp fun w hw => .of_isInstance h.registered_target hw.isInstance

end Operands

end Registry

end ArrayDispatch
