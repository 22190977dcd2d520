import ArrayDispatch.Proofs.Dispatch.Call
import ArrayDispatch.Proofs.Dispatch.Unification
import ArrayDispatch.Proofs.Stock.Registry

/-!
Calls in place. They lead to what the same call leads to otherwise, and where unification leaves
the object of operand 0 alone, the result takes its place.
-/

namespace ArrayDispatch

/-- Results that are one scalar, or arrays of one type with the same contents. -/
def Value.Agrees : Value → Value → Prop
  | .scalar s, .scalar t => s = t
  | .array a, .array b => a.type = b.type ∧ a.payload = b.payload
  | _, _ => False

def Applied.Agrees : Applied → Applied → Prop
  | .value v, .value w => v.Agrees w
  | .notImplemented, .notImplemented => True
  | _, _ => False

/-- Calls that both fail, with one cause and the same frames, or lead to the same. -/
def Outcome.Agrees (o o' : Outcome) : Prop :=
  match o.result, o'.result with
  | .ok x, .ok y => x.Agrees y
  | .error e, .error e' => e = e'
  | _, _ => False

/-- What a call that returns a value makes of operand 0: an array that unification has left alone
becomes the result, which has its type. Operands that unification has converted stay as they are. -/
structure Outcome.Replaces (unified operands : List Value) (o : Outcome) : Prop where
  moved : ∀ a w, operands.head? = some (.array a) → unified.head? = some (.array a) →
    o.result = .ok (.value w) → o.operands.head? = some w ∧ w.type? = some a.type
  kept : unified.head? ≠ operands.head? → o.operands = operands

/-- `o` leads to what `o'` does, and makes of operand 0 what a call in place does. -/
def Outcome.Matches (unified operands : List Value) (o o' : Outcome) : Prop :=
  o.Agrees o' ∧ o.Replaces unified operands

/-- The handles of a call: those with one identity are one object, and the objects that the call
makes at the site are none of those that the operands reach. -/
structure Handles (site : Site) (vs : List Value) : Prop where
  coherent : ∀ v ∈ vs, ∀ w ∈ vs, v.same w = true → v = w
  fresh : ∀ v ∈ vs, ∀ id ∈ v.ids, ¬site.path <:+ id.path

theorem handles_pair {site : Site} {a b : Object} (hne : a.id ≠ b.id)
    (hfresh : ∀ id ∈ a.ids ++ b.ids, ¬site.path <:+ id.path) :
    Handles site [.array a, .array b] := by
  constructor
  · simp only [List.mem_cons, List.not_mem_nil, or_false]
    rintro v (rfl | rfl) w (rfl | rfl) hsame
    · rfl
    · simp [Value.same, Value.id?, Value.object?, hne] at hsame
    · simp [Value.same, Value.id?, Value.object?, hne.symm] at hsame
    · rfl
  · simp only [List.mem_append] at hfresh
    simp only [List.mem_cons, List.not_mem_nil, or_false]
    rintro v (rfl | rfl) id hid
    · exact hfresh id (.inl hid)
    · exact hfresh id (.inr hid)

namespace Outcome

variable {o o' : Outcome} {us vs : List Value}

theorem agrees_of_result_eq (h : o.result = o'.result) : o.Agrees o' := by
  unfold Agrees
  rw [h]
  rcases o'.result with e | ⟨⟨s | a⟩ | _⟩
  · rfl
  · rfl
  · exact ⟨rfl, rfl⟩
  · trivial

theorem agrees_within (h : o.Agrees o') (f : Frame) : (o.within f).Agrees (o'.within f) := by
  unfold Agrees at h ⊢
  rw [result_within, result_within]
  cases ho : o.result <;> cases ho' : o'.result <;> simp_all

theorem replaces_within (h : o.Replaces us vs) (f : Frame) : (o.within f).Replaces us vs := by
  refine ⟨fun a w hv hu hw => h.moved a w hv hu ?_, h.kept⟩
  rwa [result_within, escaping_eq_ok_iff] at hw

theorem Matches.within (h : o.Matches us vs o') (f : Frame) :
    (o.within f).Matches us vs (o'.within f) :=
  ⟨agrees_within h.1 f, replaces_within h.2 f⟩

def value? (o : Outcome) : Option Value := o.result.toOption.bind Applied.value?

theorem value?_eq_some_iff {w : Value} : o.value? = some w ↔ o.result = .ok (.value w) := by
  unfold value?
  rcases o.result with e | v | _ <;> simp [Except.toOption, Applied.value?]

theorem result_ne_of_value? (h : o.value? = none) (w : Value) : o.result ≠ .ok (.value w) := by
  intro hw
  rw [value?_eq_some_iff.mpr hw] at h
  cases h

theorem exists_of_any_value? {p : Value → Bool} (h : o.value?.any p = true) :
    ∃ w, o.result = .ok (.value w) ∧ p w = true := by
  cases hw : o.value? with
  | none =>
    rw [hw] at h
    cases h
  | some w =>
    rw [hw] at h
    exact ⟨w, value?_eq_some_iff.mp hw, h⟩

theorem replaces_of_kept (ho : o.operands = vs) (hr : o.value? = none) : o.Replaces us vs :=
  ⟨fun _ w _ _ hw => absurd hw (result_ne_of_value? hr w), fun _ => ho⟩

end Outcome

/-! ## Identities -/

namespace Registry

/-- The operands `vs` of a call have been unified to the type `d`, and the object of operand 0 is
still the only one with its identity. -/
structure UnifiedTo (r : Registry) (d : Descriptor) (vs us : List Value) : Prop where
  registered : r.types.Registered d
  type?_eq : ∀ u ∈ us, u.type? = some d.key
  isInstance : d.isTensor = false → ∀ u ∈ us, d.IsInstance u
  eq_of_id? : ∀ a, vs.head? = some (.array a) → ∀ u ∈ us, u.id? = some a.id → u = .array a

variable {r : Registry} {c : Call} {site : Site} {vs us : List Value} {d : Descriptor}

theorem eq_of_adapted_of_id? (hh : Handles site vs) {a : Object} (ha : .array a ∈ vs) {v u : Value}
    (hv : v ∈ vs) (h : r.types.Adapted (site.child 1) d v u) (hid : u.id? = some a.id) :
    u = .array a := by
  rcases h.eq_or_id? with rfl | ⟨i, hi⟩
  · refine hh.coherent u hv _ ha ?_
    rw [Value.same, hid]
    exact beq_self_eq_true (some a.id)
  · rw [hi, Option.some.injEq] at hid
    refine absurd ?_ (hh.fresh _ ha a.id (Value.mem_ids_of_id? rfl))
    rw [← hid]
    exact ⟨[i, 1], rfl⟩

theorem exists_unifiedTo (ht : r.types.Regular) (hu : r.unifier = .promote)
    (hvs : ∀ v ∈ vs, r.types.WellFormed v) (hh : Handles site vs) (hm : c.mode ≠ .select)
    {a : Object} (ha : .array a ∈ vs) (h : r.unified c site vs = .ok us) :
    ∃ d, r.UnifiedTo d vs us ∧ us.length = vs.length := by
  obtain ⟨d, hd, hall⟩ := adapted_of_unified hu hvs hm ha h
  refine ⟨d, ⟨hd, fun u hu => ?_, fun hp u hu => ?_, fun b hb u hu hid => ?_⟩,
    hall.length_eq.symm⟩
  · obtain ⟨v, _, hvu⟩ := exists_mem_of_forall₂ hall hu
    exact hvu.type?_eq
  · obtain ⟨v, hv, hvu⟩ := exists_mem_of_forall₂ hall hu
    exact hvu.isInstance ht hd (Descriptor.convertible_of_plain hp) (hvs v hv)
  · obtain ⟨v, hv, hvu⟩ := exists_mem_of_forall₂ hall hu
    exact eq_of_adapted_of_id? hh (List.mem_of_head? hb) hv hvu hid

theorem UnifiedTo.head?_of_movable? (h : r.UnifiedTo d vs us) {a : Object}
    (hm : c.movable? us vs = some a) :
    us.head? = some (.array a) ∧ vs.head? = some (.array a) := by
  obtain ⟨_, hv, b, hu, hid⟩ := Call.movable?_eq_some_iff.mp hm
  have hb := h.eq_of_id? a hv (.array b) (List.mem_of_head? hu) (congrArg some hid)
  exact ⟨hb ▸ hu, hv⟩

end Registry

/-! ## Results that are moved -/

theorem exists_finish_some (held vs : List Value) (a result : Object) :
    ∃ b, finish held vs (some a) result = .returned (replaceObject a.id b vs) (.array b) ∧
      b.type = result.type ∧ b.payload = result.payload := by
  refine ⟨_, rfl, ?_⟩
  split
  · exact ⟨rfl, rfl⟩
  · exact ⟨rfl, rfl⟩

theorem exists_finish_result (held vs : List Value) (target : Option Object) (result : Object) :
    ∃ b, (finish held vs target result).result = .ok (.value (.array b)) ∧
      b.type = result.type ∧ b.payload = result.payload := by
  cases target with
  | none => exact ⟨result, rfl, rfl, rfl⟩
  | some a =>
    obtain ⟨b, hb, htype, hpayload⟩ := exists_finish_some held vs a result
    exact ⟨b, by rw [hb]; rfl, htype, hpayload⟩

theorem finish_agrees (held held' vs : List Value) (target target' : Option Object)
    (result : Object) :
    (finish held vs target result).Agrees (finish held' vs target' result) := by
  obtain ⟨b, hb, htype, hpayload⟩ := exists_finish_result held vs target result
  obtain ⟨b', hb', htype', hpayload'⟩ := exists_finish_result held' vs target' result
  unfold Outcome.Agrees
  rw [hb, hb']
  exact ⟨htype.trans htype'.symm, hpayload.trans hpayload'.symm⟩

theorem head?_replaceObject {vs : List Value} {a b : Object} (h : vs.head? = some (.array a)) :
    (replaceObject a.id b vs).head? = some (.array b) := by
  cases vs with
  | nil => cases h
  | cons v vs =>
    cases h
    simp [replaceObject, Value.id?, Value.object?]

namespace Registry

variable {r : Registry} {self : Dispatcher} {op : Op} {slot : Slot} {site : Site}
  {held held' us vs : List Value} {d : Descriptor}

theorem UnifiedTo.type_eq (h : r.UnifiedTo d vs us) {a : Object}
    (ha : us.head? = some (.array a)) : a.type = d.key :=
  Option.some.inj (h.type?_eq _ (List.mem_of_head? ha))

theorem UnifiedTo.movable?_eq_none (h : r.UnifiedTo d vs us) {c : Call}
    (hne : us.head? ≠ vs.head?) : c.movable? us vs = none := by
  cases hm : c.movable? us vs with
  | none => rfl
  | some a =>
    obtain ⟨hu, hv⟩ := h.head?_of_movable? hm
    exact absurd (hu.trans hv.symm) hne

theorem UnifiedTo.finish_replaces (h : r.UnifiedTo d vs us) {result : Object}
    (hresult : result.type = d.key) :
    (finish held vs (Call.movable? ⟨.inPlace, op, slot⟩ us vs) result).Replaces us vs := by
  refine ⟨fun a w hv hu hw => ?_, fun hne => ?_⟩
  · rw [Call.movable?_eq_some_iff.mpr ⟨rfl, hv, a, hu, rfl⟩] at hw ⊢
    obtain ⟨b, hb, htype, _⟩ := exists_finish_some held vs a result
    rw [hb] at hw ⊢
    cases hw
    refine ⟨head?_replaceObject hv, congrArg some ?_⟩
    rw [htype, hresult, h.type_eq hu]
  · rw [h.movable?_eq_none hne]
    rfl

/-! ## The generic loop -/

/-- A loop into the storage of an operand reads its operands as they were, if all those that are the
object are read from the storage. -/
theorem reads_inPlace (ht : r.types.Regular) (hus : r.Arrays us) {lens : List Nat}
    (hl : Lengths us lens) (hta : d.info.access = .stock) {a : Object}
    (hsame : ∀ u ∈ us, u.id? = some a.id → u = .array a) {n : Nat} (hn : a.length = 1 → n ≤ 1)
    (counterpart : Counterpart) (loopSite : Site) :
    (Loop.mk r.types d counterpart
      ((us.map fun u => if u.id? = some a.id then none else some u).zip lens)
      loopSite).Reads us n a.payload := by
  refine ⟨?_, access_of_arrays ht hus, hta⟩
  clear hus
  induction hl with
  | nil => exact .nil
  | @cons u len us lens hlen _ ih =>
    refine .cons ⟨hlen, ?_⟩ (ih fun w hw => hsame w (List.mem_cons_of_mem _ hw))
    by_cases hid : u.id? = some a.id
    · have hu := hsame u (by simp) hid
      subst hu
      refine .inr ⟨if_pos hid, ⟨a, rfl, rfl⟩, fun hone => hn ?_⟩
      exact (Option.some.inj hlen).trans hone
    · exact .inl (if_neg hid)

theorem length_eq_of_fits (hus : ∀ u ∈ us, d.IsInstance u) {lens : List Nat}
    (hl : Lengths us lens) {n : Nat} (hr : Reconciles lens n) {a : Object}
    (ha : us.head? = some (.array a))
    (hfits : (d.extent.fixed?.isSome || lens.head? == some n) = true) : a.length = n := by
  rcases Bool.or_eq_true _ _ ▸ hfits with hfixed | hhead
  · obtain ⟨b, hb, hbn⟩ := hl.exists_of_mem hr.mem
    have hadma := (hus _ (List.mem_of_head? ha)).admits
    have hadmb := (hus _ hb).admits
    cases he : d.extent with
    | dynamic =>
      rw [he] at hfixed
      cases hfixed
    | fixed m =>
      rw [he] at hadma hadmb
      exact (hadma.trans hadmb.symm).trans hbn
  · cases hl with
    | nil => cases ha
    | cons hlen _ =>
      cases ha
      have hhead := beq_iff_eq.mp hhead
      rw [List.head?_cons, Option.some.injEq] at hhead
      exact (Option.some.inj hlen).trans hhead

section Storage

variable (ht : r.types.Regular) (h : r.UnifiedTo d vs us) (hp : d.isTensor = false)
  {lens : List Nat} (hl : Lengths us lens) {n : Nat} (hr : Reconciles lens n) {a : Object}
  (hu : us.head? = some (.array a)) (hv : vs.head? = some (.array a))
  (hfits : (d.extent.fixed?.isSome || lens.head? == some n) = true) (counterpart : Counterpart)

include ht h hp hl hr hu hv hfits

/-- A loop into the storage of operand 0 stores what one into new storage does, and fails where that
one fails. -/
theorem runs_alike (site : Site) :
    let l := Loop.mk r.types d counterpart
      ((us.map fun u => if u.id? = some a.id then none else some u).zip lens) (site.child 4)
    let l' := Loop.mk r.types d counterpart ((us.map some).zip lens) (site.child 4)
    (∃ q q', l.run a.payload n = (.ok (), q) ∧ l'.run (d.alloc site n) n = (.ok (), q') ∧
        Loop.Alike a.payload (d.alloc site n) n q q' ∧ q = q') ∨
      ∃ i e q q', l.StopsAt a.payload n i e q ∧ l'.StopsAt (d.alloc site n) n i e q' ∧
        Loop.Alike a.payload (d.alloc site n) i q q' ∧ l'.FilledTo us (d.alloc site n) i q' := by
  have hus := h.isInstance hp
  have harr : r.Arrays us := fun u hu => ⟨d, h.registered, hus u hu⟩
  have haccess := ht.access_of_registered h.registered
  have hlen : a.length = n := length_eq_of_fits hus hl hr hu hfits
  have hform : (d.alloc site n).form = a.payload.form := by
    rw [d.form_alloc]
    exact (hus _ (List.mem_of_head? hu)).form_eq.symm
  have hlen' : (d.alloc site n).length = a.payload.length :=
    (d.length_alloc hp site n).trans hlen.symm
  have hreads := reads_inPlace (n := n) ht harr hl haccess (h.eq_of_id? a hv) (by omega)
    counterpart (site.child 4)
  have hreads' := reads_of_arrays ht harr hl haccess counterpart (site.child 4) n (d.alloc site n)
  rcases Loop.run_alike hreads hreads' hform hlen' with
    ⟨q, q', hrun, hrun', halike⟩ | ⟨i, e, q, q', hstop, hstop', halike⟩
  · have hplain : a.payload.form ≠ .tensor := by
      rw [← hform, d.form_alloc, ne_eq, ← Descriptor.isTensor_iff, hp]
      exact Bool.false_ne_true
    exact .inl ⟨q, q', hrun, hrun', halike, halike.eq hform hplain hlen' hlen⟩
  · have hfilled := (hreads'.mono (Nat.le_of_lt hstop'.lt)).run_filledTo.1 q' hstop'.run_prefix
    exact .inr ⟨i, e, q, q', hstop, hstop', halike, hfilled⟩

theorem intoOperand_agrees (unique : Bool) :
    ((Loop.mk r.types d counterpart
        ((us.map fun u => if u.id? = some a.id then none else some u).zip lens)
        (site.child 4)).intoOperand a unique site n vs).Agrees
      ((Loop.mk r.types d counterpart ((us.map some).zip lens) (site.child 4)).intoNew held site n
        none vs) := by
  unfold Loop.intoOperand Loop.intoNew Outcome.Agrees
  have htype : a.type = d.key := h.type_eq hu
  rcases runs_alike ht h hp hl hr hu hv hfits counterpart site with
    ⟨q, q', hrun, hrun', _, rfl⟩ | ⟨i, e, q, q', hstop, hstop', _⟩
  · simp only [hrun, hrun']
    exact ⟨htype, rfl⟩
  · simp only [hstop.run_eq, hstop'.run_eq]
    rfl

end Storage

theorem intoOperand_replaces {l : Loop} {a : Object} (hu : us.head? = some (.array a))
    (hv : vs.head? = some (.array a)) (unique : Bool) (n : Nat) :
    (l.intoOperand a unique site n vs).Replaces us vs := by
  refine ⟨fun b w hb _ hw => ?_, fun hne => absurd (hu.trans hv.symm) hne⟩
  rw [hv] at hb
  cases hb
  unfold Loop.intoOperand at hw ⊢
  obtain ⟨_, _, hw⟩ := map_eq_ok_iff.mp hw
  cases hw
  exact ⟨head?_replaceObject hv, rfl⟩

theorem intoNew_agrees (l : Loop) (n : Nat) (target target' : Option Object) :
    (l.intoNew held site n target vs).Agrees (l.intoNew held' site n target' vs) := by
  unfold Loop.intoNew
  rcases l.run (l.target.alloc site n) n with ⟨e | u, q⟩
  · rfl
  · exact finish_agrees held held' vs target target' _

theorem UnifiedTo.intoNew_replaces (h : r.UnifiedTo d vs us) (l : Loop) (hl : l.target.key = d.key)
    (n : Nat) :
    (l.intoNew held site n (Call.movable? ⟨.inPlace, op, slot⟩ us vs) vs).Replaces us vs := by
  unfold Loop.intoNew
  rcases l.run (l.target.alloc site n) n with ⟨e | u, q⟩
  · exact Outcome.replaces_of_kept rfl rfl
  · exact h.finish_replaces hl

/-- A generic call in place fails as the same call does otherwise, or runs the same loop into new
storage, or into that of operand 0. -/
theorem loopCall_inPlace_cases (ht : r.types.Regular) (h : r.UnifiedTo d vs us)
    (hp : d.isTensor = false) (hne : us ≠ []) (held : List Value) :
    (∃ cause, r.loopCall self ⟨.inPlace, op, slot⟩ held site d d us vs = .failedBy vs cause ∧
        ∀ held', r.loopCall self ⟨.normal, op, slot⟩ held' site d d us vs = .failedBy vs cause) ∨
      ∃ counterpart lens n, r.counterpart self ⟨.normal, op, slot⟩ = .ok counterpart ∧
        Lengths us lens ∧ Reconciles lens n ∧
        (∀ held', r.loopCall self ⟨.normal, op, slot⟩ held' site d d us vs =
          (Loop.mk r.types d counterpart ((us.map some).zip lens) (site.child 4)).intoNew held' site
            n none vs) ∧
        (r.loopCall self ⟨.inPlace, op, slot⟩ held site d d us vs =
            (Loop.mk r.types d counterpart ((us.map some).zip lens) (site.child 4)).intoNew held
              site n (Call.movable? ⟨.inPlace, op, slot⟩ us vs) vs ∨
          ∃ a unique, us.head? = some (.array a) ∧ vs.head? = some (.array a) ∧
            (d.extent.fixed?.isSome || lens.head? == some n) = true ∧
            r.loopCall self ⟨.inPlace, op, slot⟩ held site d d us vs =
              (Loop.mk r.types d counterpart
                ((us.map fun u => if u.id? = some a.id then none else some u).zip lens)
                (site.child 4)).intoOperand a unique site n vs) := by
  have harr : r.Arrays us := fun u hu => ⟨d, h.registered, h.isInstance hp u hu⟩
  obtain ⟨lens, hl⟩ := exists_lengths harr
  have hlens : lens ≠ [] := by
    rintro rfl
    cases hl
    exact hne rfl
  have hsame : r.counterpart self ⟨.inPlace, op, slot⟩ =
      r.counterpart self ⟨.normal, op, slot⟩ := by
    cases slot <;> rfl
  cases hcp : r.counterpart self ⟨.normal, op, slot⟩ with
  | error cause =>
    have hfail : ∀ (c : Call) held, r.counterpart self c = .error cause →
        r.loopCall self c held site d d us vs = .failedBy vs cause := by
      intro c held hc
      unfold loopCall loopParts
      rw [hc]
      rfl
    exact .inl ⟨cause, hfail _ held (hsame.trans hcp), fun held' => hfail _ held' hcp⟩
  | ok counterpart =>
    have hnormal : ∀ held', r.loopCall self ⟨.normal, op, slot⟩ held' site d d us vs = _ :=
      fun held' => loopCall_of_arrays ht harr hl hcp (Call.movable?_eq_none (by simp)) d d
    have hparts := loopParts_of_arrays ht harr hl (hsame.trans hcp)
    cases hrec : reconcileLengths lens with
    | error cause =>
      refine .inl ⟨cause, ?_, fun held' => (hnormal held').trans (by rw [hrec])⟩
      unfold loopCall
      rw [hparts, hrec]
      rfl
    | ok n =>
      have hr := (reconcileLengths_eq_ok_iff_reconciles hlens).mp hrec
      refine .inr ⟨counterpart, lens, n, rfl, hl, hr,
        fun held' => (hnormal held').trans (by rw [hrec]), ?_⟩
      unfold loopCall
      rw [hparts, hrec]
      simp only [Except.map]
      cases hm : Call.movable? ⟨.inPlace, op, slot⟩ us vs with
      | none => exact .inl rfl
      | some a =>
        obtain ⟨hu, hv⟩ := h.head?_of_movable? hm
        cases hfits : d.extent.fixed?.isSome || lens.head? == some n with
        | false => exact .inl rfl
        | true => exact .inr ⟨a, _, hu, hv, rfl, rfl⟩

theorem loopCall_inPlace (ht : r.types.Regular) (h : r.UnifiedTo d vs us)
    (hp : d.isTensor = false) (hne : us ≠ []) :
    Outcome.Matches us vs (r.loopCall self ⟨.inPlace, op, slot⟩ held site d d us vs)
      (r.loopCall self ⟨.normal, op, slot⟩ held' site d d us vs) := by
  rcases loopCall_inPlace_cases ht h hp hne held with
    ⟨cause, hin, hnormal⟩ |
      ⟨counterpart, lens, n, _, hl, hr, hnormal, hin | ⟨a, unique, hu, hv, hfits, hin⟩⟩
  · rw [hin, hnormal]
    exact ⟨rfl, Outcome.replaces_of_kept rfl rfl⟩
  · rw [hin, hnormal]
    exact ⟨intoNew_agrees _ n _ none, h.intoNew_replaces _ rfl n⟩
  · rw [hin, hnormal]
    exact ⟨intoOperand_agrees ht h hp hl hr hu hv hfits counterpart unique,
      intoOperand_replaces hu hv unique n⟩

/-! ## Calls -/

theorem arrayCall_inPlace (ht : r.types.Regular) (h : r.UnifiedTo d vs us)
    (hp : d.isTensor = false) (hne : us ≠ []) :
    Outcome.Matches us vs (r.arrayCall self ⟨.inPlace, op, slot⟩ held site d us vs)
      (r.arrayCall self ⟨.normal, op, slot⟩ held' site d us vs) := by
  have htarget : r.types.descriptor d.key = .ok d :=
    TypeTable.descriptor_eq_ok_iff.mpr h.registered
  have hordered : Call.isUnordered ⟨.inPlace, op, slot⟩ d =
      Call.isUnordered ⟨.normal, op, slot⟩ d := rfl
  unfold arrayCall
  rw [hordered]
  cases Call.isUnordered ⟨.normal, op, slot⟩ d with
  | true => exact ⟨rfl, Outcome.replaces_of_kept rfl rfl⟩
  | false =>
    simp only [Call.resultType, reduceCtorEq, Bool.false_eq_true, if_false, htarget]
    cases d.op op with
    | unsupported => exact ⟨trivial, Outcome.replaces_of_kept rfl rfl⟩
    | native kernel =>
      simp only
      cases payloads us >>= kernel.run op slot with
      | error cause => exact ⟨rfl, Outcome.replaces_of_kept rfl rfl⟩
      | ok p => exact ⟨finish_agrees held held' vs _ _ _, h.finish_replaces rfl⟩
    | generic => exact loopCall_inPlace ht h hp hne

theorem UnifiedTo.eq_of_tensorParts (h : r.UnifiedTo d vs us) {c : Call}
    (hc : c.Takes us.length) {d' : Descriptor} {arrays : List Value} {shape : List Nat}
    (hparts : r.tensorParts c site us = .ok (d', arrays, shape)) : d' = d := by
  obtain ⟨a, ha, _, hfind⟩ := exists_representative h.registered h.type?_eq hc
  rw [tensorParts_of_representative ha hfind] at hparts
  split at hparts
  · obtain ⟨expanded, _, hexpanded⟩ := map_eq_ok_iff.mp hparts
    cases hexpanded
    rfl
  · cases hparts

theorem tensorCall_inPlace (h : r.UnifiedTo d vs us)
    (hc : Call.Takes ⟨.inPlace, op, slot⟩ us.length) :
    Outcome.Matches us vs (r.tensorCall self ⟨.inPlace, op, slot⟩ held site us vs)
      (r.tensorCall self ⟨.normal, op, slot⟩ held' site us vs) := by
  have hsame : r.tensorParts ⟨.normal, op, slot⟩ site us =
      r.tensorParts ⟨.inPlace, op, slot⟩ site us := rfl
  unfold tensorCall
  rw [hsame]
  cases hparts : r.tensorParts ⟨.inPlace, op, slot⟩ site us with
  | error cause => exact ⟨rfl, Outcome.replaces_of_kept rfl rfl⟩
  | ok parts =>
    obtain ⟨d', arrays, shape⟩ := parts
    obtain rfl := h.eq_of_tensorParts hc hparts
    simp only [Mode.nested]
    rcases (self ⟨.normal, op, slot⟩ [] (site.child 3) arrays).result with e | ⟨⟨s | flat⟩ | _⟩
    · exact ⟨rfl, Outcome.replaces_of_kept rfl rfl⟩
    · exact ⟨rfl, Outcome.replaces_of_kept rfl rfl⟩
    · exact ⟨finish_agrees held held' vs _ _ _, h.finish_replaces rfl⟩
    · exact ⟨trivial, Outcome.replaces_of_kept rfl rfl⟩

theorem resolve_inPlace (ht : r.types.Regular) (h : r.UnifiedTo d vs us)
    (hc : Call.Takes ⟨.inPlace, op, slot⟩ us.length)
    (hc' : Call.Takes ⟨.normal, op, slot⟩ us.length) :
    Outcome.Matches us vs
      ((r.resolve self ⟨.inPlace, op, slot⟩ held site us vs).within
        (r.frameOf ⟨.inPlace, op, slot⟩ us vs))
      ((r.resolve self ⟨.normal, op, slot⟩ held' site us vs).within
        (r.frameOf ⟨.normal, op, slot⟩ us vs)) := by
  rw [frameOf_of_type? h.registered h.type?_eq hc, frameOf_of_type? h.registered h.type?_eq hc',
    resolve_of_type? h.registered h.type?_eq hc, resolve_of_type? h.registered h.type?_eq hc']
  refine Outcome.Matches.within ?_ _
  cases hp : d.isTensor with
  | true => exact tensorCall_inPlace h hc
  | false => exact arrayCall_inPlace ht h hp (List.ne_nil_of_length_pos hc.pos)

theorem unified_inPlace (hu : r.unifier = .promote) :
    r.unified ⟨.inPlace, op, slot⟩ site vs = r.unified ⟨.normal, op, slot⟩ site vs := by
  have hin : Mode.inPlace ≠ .select := by decide
  have hnormal : Mode.normal ≠ .select := by decide
  have hsame : Unifier.promote r.types (site.child 1) .inPlace vs =
      Unifier.promote r.types (site.child 1) .normal vs :=
    (Unifier.promote_eq hin).trans (Unifier.promote_eq hnormal).symm
  unfold unified
  rw [hu]
  simp only [hsame]
  rfl

theorem step_inPlace (ht : r.types.Regular) (hu : r.unifier = .promote)
    (hvs : ∀ v ∈ vs, r.types.WellFormed v) (hh : Handles site vs) :
    (r.step self ⟨.inPlace, op, slot⟩ held site vs).Agrees
        (r.step self ⟨.normal, op, slot⟩ held' site vs) ∧
      ∀ us, r.unified ⟨.inPlace, op, slot⟩ site vs = .ok us →
        (r.step self ⟨.inPlace, op, slot⟩ held site vs).Replaces us vs := by
  have hin : Mode.inPlace ≠ .select := by decide
  by_cases hlen : vs.length = 0 ∨ 3 < vs.length
  · have hnot : ∀ m : Mode, ¬Call.Takes ⟨m, op, slot⟩ vs.length := by
      intro m h
      have hpos := h.pos
      have hle := h.le_three
      omega
    rw [step_of_not_takes (hnot .inPlace), step_of_not_takes (hnot .normal)]
    exact ⟨rfl, fun us _ => Outcome.replaces_of_kept rfl rfl⟩
  have htakes : ∀ (m : Mode) n, m.operandCount? = none → n = vs.length →
      Call.Takes ⟨m, op, slot⟩ n := fun m n hm hn =>
    Call.takes_of_operandCount? hm (by omega) (by omega)
  rcases Value.exists_scalars_or_array vs with ⟨ss, rfl⟩ | ⟨a, ha⟩
  · refine ⟨Outcome.agrees_of_result_eq ?_, fun us hus => ⟨fun a w hv _ _ => ?_, fun hne => ?_⟩⟩
    · rw [step_scalars_result (htakes .inPlace _ rfl (by simp)),
        step_scalars_result (htakes .normal _ rfl (by simp))]
    · cases ss <;> cases hv
    · exact absurd (congrArg List.head? (eq_of_unified_scalars hu hus)) hne
  · rw [step_of_isArray (htakes .inPlace _ rfl rfl) ha,
      step_of_isArray (htakes .normal _ rfl rfl) ha, unified_inPlace hu]
    cases hus : r.unified ⟨.normal, op, slot⟩ site vs with
    | error e => exact ⟨rfl, fun us h => by cases h⟩
    | ok us =>
      obtain ⟨d, h, hl⟩ := exists_unifiedTo ht hu hvs hh hin ha (unified_inPlace hu ▸ hus)
      suffices hmatches : Outcome.Matches us vs _ _ from
        ⟨hmatches.1, fun us' hus' => by cases hus'; exact hmatches.2⟩
      exact resolve_inPlace ht h (htakes .inPlace _ rfl hl) (htakes .normal _ rfl hl)

end Registry

/-- A call in place leads to what the same call leads to otherwise: the operation is supported by
neither, both fail with one cause and the same frames, or both return values of one type with the
same contents. Where unification leaves the array that is operand 0 alone, the result takes its
place; where it is converted, it stays as it is. -/
theorem apply_inPlace {r : Registry} (hr : r.Built) (ha : r.types.StockAccess)
    (hu : r.unifier = .promote) (op : Op) (slot : Slot) {vs : List Value}
    (hvs : ∀ v ∈ vs, r.types.WellFormed v) {site : Site} (hh : Handles site vs)
    (held held' : List Value) :
    (r.apply ⟨.inPlace, op, slot⟩ held site vs).Agrees
        (r.apply ⟨.normal, op, slot⟩ held' site vs) ∧
      ∀ us, r.unified ⟨.inPlace, op, slot⟩ site vs = .ok us →
        (r.apply ⟨.inPlace, op, slot⟩ held site vs).Replaces us vs := by
  obtain ⟨k, hk⟩ := r.exists_levels_eq vs
  unfold Registry.apply
  rw [hk]
  exact Registry.step_inPlace ⟨hr.sound, ha⟩ hu hvs hh

/-- All three operands are the object that is written. -/
theorem apply_inPlace_aliased :
    let x := Stock.integerArray ⟨[0]⟩ [3, 4]
    Handles ⟨[1]⟩ [x, x, x] ∧
      (Stock.registry.apply ⟨.inPlace, .fma, .method⟩ [] ⟨[1]⟩ [x, x, x]).reused = true ∧
      (Stock.registry.apply ⟨.inPlace, .fma, .method⟩ [] ⟨[1]⟩ [x, x, x]).Agrees
        (Stock.registry.apply ⟨.normal, .fma, .method⟩ [] ⟨[1]⟩ [x, x, x]) ∧
      (Stock.registry.apply ⟨.inPlace, .fma, .method⟩ [] ⟨[1]⟩ [x, x, x]).Replaces
        [x, x, x] [x, x, x] := by
  intro x
  have hvs : ∀ v ∈ [x, x, x], Stock.registry.types.WellFormed v := by
    intro v hv
    have hx : v = x := by simpa using hv
    rw [hx]
    exact .of_isInstance Stock.registered_integers (Stock.isInstance_integerArray _ _)
  have hh : Handles ⟨[1]⟩ [x, x, x] := by
    refine ⟨fun v hv w hw _ => ?_, fun v hv id hid => ?_⟩
    · have hx : v = x := by simpa using hv
      have hw : w = x := by simpa using hw
      rw [hx, hw]
    · have hx : v = x := by simpa using hv
      rw [hx] at hid
      rw [List.mem_singleton.mp hid]
      decide
  obtain ⟨hagrees, hreplaces⟩ := apply_inPlace Stock.built_registry Stock.stockAccess_registry rfl
    .fma .method hvs hh [] []
  exact ⟨hh, by decide +kernel, hagrees, hreplaces _ rfl⟩

end ArrayDispatch
