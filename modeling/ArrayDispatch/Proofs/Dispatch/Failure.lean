import ArrayDispatch.Proofs.Dispatch.InPlace

/-!
What calls leave of their operands. They are left alone by calls that do not work in place, and
where the operation is not supported. A call in place that fails leaves them alone as well, unless
it has begun to write into the storage of operand 0: the generic loop then keeps what it has stored
before the position that fails.
-/

namespace ArrayDispatch

/-- `b` is the object `a` with the first `i` positions written as they are in `q`. -/
structure Object.WrittenTo (a : Object) (q : Payload) (i : Nat) (b : Object) : Prop where
  type_eq : b.type = a.type
  form_eq : b.payload.form = a.payload.form
  length_eq : b.length = a.length
  done : ∀ j, j < i → b.payload.get? j = q.get? j
  rest : ∀ j, i ≤ j → b.payload.get? j = a.payload.get? j

/-- The operands `ws` after the loop `l` over the storage of operand 0 has failed with `e`: the
loop stops at a position `i`, also over new storage, of which it then has filled the positions
before `i` with what the counterpart makes of the unified operands `us`. Operand 0 holds the same
there and what it held before from `i` on; all operands that are its object still are, and the
others are those of `vs`. -/
def Loop.Interrupted (l : Loop) (site : Site) (n : Nat) (us vs : List Value) (e : DispatchError)
    (ws : List Value) : Prop :=
  ∃ i a b q, us.head? = some (.array a) ∧ vs.head? = some (.array a) ∧
    l.StopsAt (l.target.alloc site n) n i e q ∧ l.FilledTo us (l.target.alloc site n) i q ∧
    a.WrittenTo q i b ∧ ws = replaceObject a.id b vs

/-! ## Operands that are left alone -/

namespace Outcome

variable {c : Call} {us vs : List Value} {o : Outcome}

/-- The operands are left alone, unless the call works in place and returns a value or fails. -/
def LeavesAlone (c : Call) (vs : List Value) (o : Outcome) : Prop :=
  c.mode ≠ .inPlace ∨ o.result = .ok .notImplemented → o.operands = vs

theorem leavesAlone_of_operands_eq (h : o.operands = vs) : o.LeavesAlone c vs := fun _ => h

theorem LeavesAlone.within (h : o.LeavesAlone c vs) (f : Frame) :
    (o.within f).LeavesAlone c vs := by
  intro hc
  apply h
  by_cases hm : c.mode = .inPlace
  · exact .inr (escaping_eq_ok_iff.mp (hc.resolve_left (not_not_intro hm)))
  · exact .inl hm

end Outcome

theorem finish_leavesAlone (c : Call) (held us vs : List Value) (result : Object) :
    (finish held vs (c.movable? us vs) result).LeavesAlone c vs := by
  intro hc
  cases hm : c.movable? us vs with
  | none => rfl
  | some a =>
    obtain ⟨b, hb, _, _⟩ := exists_finish_some held vs a result
    rcases hc with hc | hc
    · exact absurd (Call.movable?_eq_some_iff.mp hm).1 hc
    · rw [hm, hb] at hc
      cases hc

namespace Registry

variable {r : Registry} {self : Dispatcher} {c : Call} {op : Op} {slot : Slot} {site : Site}
  {held us vs : List Value} {d : Descriptor}

theorem loopCall_leavesAlone (source target : Descriptor) :
    (r.loopCall self c held site source target us vs).LeavesAlone c vs := by
  unfold loopCall
  split
  · exact Outcome.leavesAlone_of_operands_eq rfl
  · dsimp only
    split
    · rename_i a hm _
      intro hc
      have hin := (Call.movable?_eq_some_iff.mp hm).1
      obtain ⟨_, _, h⟩ := map_eq_ok_iff.mp (hc.resolve_left (not_not_intro hin))
      cases h
    · unfold Loop.intoNew
      split
      · exact finish_leavesAlone c held us vs _
      · exact Outcome.leavesAlone_of_operands_eq rfl

theorem arrayCall_leavesAlone : (r.arrayCall self c held site d us vs).LeavesAlone c vs := by
  unfold arrayCall
  by_cases hu : c.isUnordered d = true
  · simp only [hu, if_true]
    exact Outcome.leavesAlone_of_operands_eq rfl
  · simp only [hu]
    cases r.types.descriptor (c.resultType d) with
    | error cause => exact Outcome.leavesAlone_of_operands_eq rfl
    | ok target =>
      cases d.op c.op with
      | unsupported => exact Outcome.leavesAlone_of_operands_eq rfl
      | native kernel =>
        dsimp only
        cases payloads us >>= kernel.run c.op c.slot with
        | error cause => exact Outcome.leavesAlone_of_operands_eq rfl
        | ok p => exact finish_leavesAlone c held us vs _
      | generic => exact loopCall_leavesAlone d target

theorem tensorCall_leavesAlone : (r.tensorCall self c held site us vs).LeavesAlone c vs := by
  unfold tensorCall
  split
  · exact Outcome.leavesAlone_of_operands_eq rfl
  · split
    · exact finish_leavesAlone c held us vs _
    all_goals exact Outcome.leavesAlone_of_operands_eq rfl

theorem resolve_leavesAlone : (r.resolve self c held site us vs).LeavesAlone c vs := by
  unfold resolve
  split
  · exact Outcome.leavesAlone_of_operands_eq rfl
  · split
    · exact Outcome.leavesAlone_of_operands_eq rfl
    · split
      · exact tensorCall_leavesAlone
      · exact arrayCall_leavesAlone

theorem scalarCall_leavesAlone (ss : List Scalar) : (scalarCall c ss vs).LeavesAlone c vs := by
  unfold scalarCall
  split
  · exact Outcome.leavesAlone_of_operands_eq rfl
  · rintro (hm | h)
    · simp [Outcome.returned, hm]
    · cases h

theorem step_leavesAlone : (r.step self c held site vs).LeavesAlone c vs := by
  unfold step
  dsimp only
  split
  · exact Outcome.leavesAlone_of_operands_eq rfl
  · split
    · exact scalarCall_leavesAlone _
    · split
      · exact Outcome.leavesAlone_of_operands_eq rfl
      · exact resolve_leavesAlone.within _

/-! ## Calls in place that fail -/

theorem finish_result_ne (target : Option Object) (result : Object) (e : DispatchError) :
    (finish held vs target result).result ≠ .error e := by
  obtain ⟨b, hb, _⟩ := exists_finish_result held vs target result
  simp [hb]

theorem intoNew_operands_of_error (l : Loop) (n : Nat) (target : Option Object)
    {e : DispatchError} (he : (l.intoNew held site n target vs).result = .error e) :
    (l.intoNew held site n target vs).operands = vs := by
  unfold Loop.intoNew at he ⊢
  rcases hrun : l.run (l.target.alloc site n) n with ⟨e' | u, q⟩
  · rfl
  · simp only [hrun] at he
    exact absurd he (finish_result_ne _ _ e)

theorem intoOperand_interrupted (ht : r.types.Regular) (h : r.UnifiedTo d vs us)
    (hp : d.isTensor = false) {lens : List Nat} (hl : Lengths us lens) {n : Nat}
    (hr : Reconciles lens n) {a : Object} (hu : us.head? = some (.array a))
    (hv : vs.head? = some (.array a))
    (hfits : (d.extent.fixed?.isSome || lens.head? == some n) = true)
    (counterpart : Counterpart) (unique : Bool) {o : Outcome}
    (ho : o = (Loop.mk r.types d counterpart
        ((us.map fun u => if u.id? = some a.id then none else some u).zip lens)
        (site.child 4)).intoOperand a unique site n vs) {e : DispatchError}
    (he : o.result = .error e) :
    (Loop.mk r.types d counterpart ((us.map some).zip lens) (site.child 4)).Interrupted site n us vs
      e o.operands := by
  subst ho
  unfold Loop.intoOperand at he ⊢
  rcases runs_alike ht h hp hl hr hu hv hfits counterpart site with
    ⟨q, _, hrun, _⟩ | ⟨i, e', q, q', hstop, hstop', halike, hfilled⟩
  · simp [hrun, Except.map] at he
  · simp only [hstop.run_eq] at he ⊢
    cases he
    have hwritten : a.WrittenTo q' i ⟨if unique then a.id else site, a.type, q⟩ :=
      ⟨rfl, halike.form_eq.1, halike.length_eq.1, halike.done, fun j hj => (halike.rest j hj).1⟩
    exact ⟨i, a, _, q', hu, hv, hstop', hfilled, hwritten, rfl⟩

/-- A call in place with outcome `o` that has failed: it has left its operands alone, or was
interrupted in the loop that the same call runs otherwise. -/
def FailsCleanly (normal : List Value → Outcome) (site : Site) (us vs : List Value) (o : Outcome) :
    Prop :=
  ∀ e, o.result = .error e →
    o.operands = vs ∨
      ∃ (l : Loop) (n : Nat), (∀ held, normal held = l.intoNew held site n none vs) ∧
        l.Interrupted site n us vs e o.operands

theorem loopCall_failsCleanly (ht : r.types.Regular) (h : r.UnifiedTo d vs us)
    (hp : d.isTensor = false) (hne : us ≠ []) :
    FailsCleanly (fun held => r.loopCall self ⟨.normal, op, slot⟩ held site d d us vs) site us vs
      (r.loopCall self ⟨.inPlace, op, slot⟩ held site d d us vs) := by
  intro e he
  rcases loopCall_inPlace_cases ht h hp hne held with
    ⟨cause, hin, _⟩ |
      ⟨counterpart, lens, n, _, hl, hr, hnormal, hin | ⟨a, unique, hu, hv, hfits, hin⟩⟩
  · rw [hin]
    exact .inl rfl
  · rw [hin] at he ⊢
    exact .inl (intoNew_operands_of_error _ n _ he)
  · exact .inr ⟨_, n, hnormal,
      intoOperand_interrupted ht h hp hl hr hu hv hfits counterpart unique hin he⟩

theorem failsCleanly_of_operands_eq {normal : List Value → Outcome} {o : Outcome}
    (h : o.operands = vs) : FailsCleanly normal site us vs o :=
  fun _ _ => .inl h

theorem finish_failsCleanly (normal : List Value → Outcome) (target : Option Object)
    (result : Object) : FailsCleanly normal site us vs (finish held vs target result) :=
  fun e he => absurd he (finish_result_ne target result e)

theorem arrayCall_failsCleanly (ht : r.types.Regular) (h : r.UnifiedTo d vs us)
    (hp : d.isTensor = false) (hne : us ≠ []) :
    FailsCleanly (fun held => r.arrayCall self ⟨.normal, op, slot⟩ held site d us vs) site us vs
      (r.arrayCall self ⟨.inPlace, op, slot⟩ held site d us vs) := by
  have htarget : r.types.descriptor d.key = .ok d :=
    TypeTable.descriptor_eq_ok_iff.mpr h.registered
  have hordered : Call.isUnordered ⟨.inPlace, op, slot⟩ d =
      Call.isUnordered ⟨.normal, op, slot⟩ d := rfl
  unfold arrayCall
  rw [hordered]
  cases Call.isUnordered ⟨.normal, op, slot⟩ d with
  | true => exact failsCleanly_of_operands_eq rfl
  | false =>
    simp only [Call.resultType, reduceCtorEq, Bool.false_eq_true, if_false, htarget]
    cases d.op op with
    | unsupported => exact failsCleanly_of_operands_eq rfl
    | native kernel =>
      dsimp only
      cases payloads us >>= kernel.run op slot with
      | error cause => exact failsCleanly_of_operands_eq rfl
      | ok p => exact finish_failsCleanly _ _ _
    | generic => exact loopCall_failsCleanly ht h hp hne

theorem tensorCall_operands_of_error {e : DispatchError}
    (he : (r.tensorCall self c held site us vs).result = .error e) :
    (r.tensorCall self c held site us vs).operands = vs := by
  unfold tensorCall at he ⊢
  split
  · rfl
  · rename_i parts hparts
    simp only [hparts] at he
    split <;> simp_all [finish_result_ne, Outcome.failedBy, Outcome.failed, Outcome.unsupported]

theorem resolve_failsCleanly (ht : r.types.Regular) (h : r.UnifiedTo d vs us)
    (hc : Call.Takes ⟨.inPlace, op, slot⟩ us.length)
    (hc' : Call.Takes ⟨.normal, op, slot⟩ us.length) :
    FailsCleanly (fun held => r.resolve self ⟨.normal, op, slot⟩ held site us vs) site us vs
      (r.resolve self ⟨.inPlace, op, slot⟩ held site us vs) := by
  simp only [resolve_of_type? h.registered h.type?_eq hc,
    resolve_of_type? h.registered h.type?_eq hc']
  cases hp : d.isTensor with
  | true => exact fun e he => .inl (tensorCall_operands_of_error he)
  | false => exact arrayCall_failsCleanly ht h hp (List.ne_nil_of_length_pos hc.pos)

/-- Calls in place that fail on scalars have not stored anything. -/
theorem scalarCall_operands_of_error {ss : List Scalar} {e : DispatchError}
    (he : (scalarCall c ss vs).result = .error e) : (scalarCall c ss vs).operands = vs := by
  unfold scalarCall at he ⊢
  cases hs : Scalar.eval c.op c.slot ss with
  | error cause => rfl
  | ok s => simp [hs, Outcome.returned] at he

theorem step_failsCleanly (ht : r.types.Regular) (hu : r.unifier = .promote)
    (hvs : ∀ v ∈ vs, r.types.WellFormed v) (hh : Handles site vs) {e : DispatchError}
    (he : (r.step self ⟨.inPlace, op, slot⟩ held site vs).result = .error e) :
    (r.step self ⟨.inPlace, op, slot⟩ held site vs).operands = vs ∨
      ∃ us l n f e', r.unified ⟨.inPlace, op, slot⟩ site vs = .ok us ∧
        (∀ held', r.step self ⟨.normal, op, slot⟩ held' site vs =
          (Loop.intoNew l held' site n none vs).within f) ∧
        e = DispatchError.within e' f ∧
        l.Interrupted site n us vs e' (r.step self ⟨.inPlace, op, slot⟩ held site vs).operands := by
  by_cases hlen : vs.length = 0 ∨ 3 < vs.length
  · have hnot : ¬Call.Takes ⟨.inPlace, op, slot⟩ vs.length := by
      intro h
      have hpos := h.pos
      have hle := h.le_three
      omega
    rw [step_of_not_takes hnot]
    exact .inl rfl
  have htakes : ∀ (m : Mode) n, m.operandCount? = none → n = vs.length →
      Call.Takes ⟨m, op, slot⟩ n := fun m n hm hn =>
    Call.takes_of_operandCount? hm (by omega) (by omega)
  rcases Value.exists_scalars_or_array vs with ⟨ss, rfl⟩ | ⟨a, ha⟩
  · rw [step_scalars (htakes .inPlace _ rfl (by simp))] at he ⊢
    exact .inl (scalarCall_operands_of_error he)
  · rw [step_of_isArray (htakes .inPlace _ rfl rfl) ha] at he ⊢
    cases hus : r.unified ⟨.inPlace, op, slot⟩ site vs with
    | error e => exact .inl rfl
    | ok us =>
      obtain ⟨d, h, hl⟩ := exists_unifiedTo ht hu hvs hh (by simp) ha hus
      have hin := htakes .inPlace _ rfl hl
      have hnormal := htakes .normal _ rfl hl
      simp only [hus, Outcome.result_within] at he ⊢
      obtain ⟨e', he', hwithin⟩ := escaping_eq_error_iff.mp he
      rcases resolve_failsCleanly ht h hin hnormal e' he' with hkept | ⟨l, n, hloop, hint⟩
      · exact .inl hkept
      · refine .inr ⟨us, l, n, _, e', rfl, fun held' => ?_, hwithin, hint⟩
        rw [step_of_isArray (htakes .normal _ rfl rfl) ha, ← unified_inPlace hu, hus]
        simp only [hloop, frameOf_of_type? h.registered h.type?_eq hin,
          frameOf_of_type? h.registered h.type?_eq hnormal]
        rfl

theorem applyTensor_leavesAlone : (r.applyTensor c held site vs).LeavesAlone c vs := by
  unfold applyTensor
  dsimp only
  split
  · exact Outcome.leavesAlone_of_operands_eq rfl
  · split
    · exact Outcome.leavesAlone_of_operands_eq rfl
    · exact tensorCall_leavesAlone.within _

theorem applyTensor_operands_of_error {e : DispatchError}
    (he : (r.applyTensor c held site vs).result = .error e) :
    (r.applyTensor c held site vs).operands = vs := by
  unfold applyTensor at he ⊢
  by_cases hn : 3 < vs.length ∨ vs.length ≤ c.mode.representative
  · simp only [if_pos hn]
    rfl
  · simp only [if_neg hn] at he ⊢
    cases hus : r.unified c site vs with
    | error e => rfl
    | ok us =>
      simp only [hus, Outcome.result_within] at he ⊢
      obtain ⟨e', he', _⟩ := escaping_eq_error_iff.mp he
      exact tensorCall_operands_of_error he'

end Registry

/-- Calls leave their operands alone if they do not work in place, whatever they lead to, and if the
operation is not supported. So do calls in place that fail, on plain operands and on tensors, unless
they are interrupted in the generic loop over the storage of operand 0; the same call otherwise runs
that loop into new storage, up to the same position. -/
theorem apply_operands {r : Registry} (hr : r.Built) (ha : r.types.StockAccess)
    (hu : r.unifier = .promote) (c : Call) {vs : List Value}
    (hvs : ∀ v ∈ vs, r.types.WellFormed v) {site : Site} (hh : Handles site vs)
    (held : List Value) :
    (r.apply c held site vs).LeavesAlone c vs ∧ (r.applyTensor c held site vs).LeavesAlone c vs ∧
      (∀ e, (r.applyTensor c held site vs).result = .error e →
        (r.applyTensor c held site vs).operands = vs) ∧
      ∀ op slot e, c = ⟨.inPlace, op, slot⟩ → (r.apply c held site vs).result = .error e →
        (r.apply c held site vs).operands = vs ∨
          ∃ us l n f e', r.unified c site vs = .ok us ∧
            (∀ held', r.apply ⟨.normal, op, slot⟩ held' site vs =
              (Loop.intoNew l held' site n none vs).within f) ∧
            e = DispatchError.within e' f ∧
            l.Interrupted site n us vs e' (r.apply c held site vs).operands := by
  obtain ⟨k, hk⟩ := r.exists_levels_eq vs
  refine ⟨?_, Registry.applyTensor_leavesAlone,
    fun e he => Registry.applyTensor_operands_of_error he, ?_⟩
  · unfold Registry.apply
    rw [hk]
    exact Registry.step_leavesAlone
  · rintro op slot e rfl he
    unfold Registry.apply at he ⊢
    rw [hk] at he ⊢
    exact Registry.step_failsCleanly ⟨hr.sound, ha⟩ hu hvs hh he

/-- A division that fails at its second position has stored the first quotient. -/
theorem apply_operands_interrupted :
    let x := Stock.integerArray ⟨[0]⟩ [6, 1]
    let y := Stock.integerArray ⟨[1]⟩ [2, 0]
    let o := Stock.registry.apply ⟨.inPlace, .floordiv, .method⟩ [] ⟨[2]⟩ [x, y]
    Handles ⟨[2]⟩ [x, y] ∧ o.operands = [Stock.integerArray ⟨[0]⟩ [3, 1], y] ∧
      ∃ e us l n f e', o.result = .error e ∧
        Stock.registry.unified ⟨.inPlace, .floordiv, .method⟩ ⟨[2]⟩ [x, y] = .ok us ∧
        (∀ held', Stock.registry.apply ⟨.normal, .floordiv, .method⟩ held' ⟨[2]⟩ [x, y] =
          (Loop.intoNew l held' ⟨[2]⟩ n none [x, y]).within f) ∧
        e = DispatchError.within e' f ∧ l.Interrupted ⟨[2]⟩ n us [x, y] e' o.operands := by
  intro x y o
  have hvs : ∀ v ∈ [x, y], ∃ i words, v = Stock.integerArray ⟨[i]⟩ words ∧ i < 2 := by
    simp only [List.mem_cons, List.not_mem_nil, or_false]
    rintro v (rfl | rfl)
    · exact ⟨0, _, rfl, by decide⟩
    · exact ⟨1, _, rfl, by decide⟩
  have hh : Handles ⟨[2]⟩ [x, y] := by
    constructor
    · simp only [List.mem_cons, List.not_mem_nil, or_false]
      rintro v (rfl | rfl) w (rfl | rfl) hsame
      · rfl
      · cases hsame
      · cases hsame
      · rfl
    · intro v hv id hid
      obtain ⟨i, words, rfl, hi⟩ := hvs v hv
      rw [List.mem_singleton.mp hid]
      simp only [List.suffix_cons_iff, List.suffix_nil]
      simp
      omega
  have hwell : ∀ v ∈ [x, y], Stock.registry.types.WellFormed v := by
    intro v hv
    obtain ⟨i, words, rfl, _⟩ := hvs v hv
    exact .of_isInstance Stock.registered_integers (Stock.isInstance_integerArray _ _)
  have hleft : o.operands = [Stock.integerArray ⟨[0]⟩ [3, 1], y] := rfl
  obtain ⟨e, he⟩ : ∃ e, o.result = .error e := ⟨_, rfl⟩
  obtain ⟨_, _, _, hfail⟩ := apply_operands Stock.built_registry Stock.stockAccess_registry rfl
    ⟨.inPlace, .floordiv, .method⟩ hwell hh []
  rcases hfail _ _ e rfl he with hkept | ⟨us, l, n, f, e', hus, hnormal, hwithin, hint⟩
  · have hsame := hleft.symm.trans hkept
    have hwords : (3 : IntType.Word .int32) = 6 := by simpa [x, Stock.integerArray] using hsame
    exact absurd hwords (by decide)
  · exact ⟨hh, hleft, e, us, l, n, f, e', he, hus, hnormal, hwithin, hint⟩

end ArrayDispatch
