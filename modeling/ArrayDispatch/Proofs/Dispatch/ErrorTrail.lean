import ArrayDispatch.Proofs.Dispatch.Elementwise
import ArrayDispatch.Proofs.Types.TensorConversion

/-!
Errors of operations on nested arrays. The frames of an error, read from the outside, name the types
of the levels and the positions in them by turns. They lead to the lexicographically first place
that does not settle, and there the operation fails by itself for the same cause.
-/

namespace ArrayDispatch

namespace Descriptor

/-- The type of the operands at a depth of nested arrays, if these are arrays. -/
def below? : Descriptor → Nat → Option Descriptor
  | d, 0 => some d
  | nested _ element _, depth + 1 => element.below? depth
  | _, _ + 1 => none

/-- The frames on the way to an index path, outermost first: level by level the call on its type
and the position. -/
def trail (op : Op) : Descriptor → List Nat → List Frame
  | _, [] => []
  | nested info element _, i :: path =>
    .method info.name op :: .element i :: element.trail op path
  | d, i :: _ => [.method d.name op, .element i]

/-- How the error of a call on the type `d` names the place at `path`, where the operands have the
elements `ws`. It ends with the position of scalars on which the operation has no value, or with the
call on arrays whose lengths do not agree. -/
inductive Locates (op : Op) (d : Descriptor) (path : List Nat) : List Value → DispatchError → Prop
  | evaluation {ss : List Scalar} {cause : Cause} (hdepth : path.length = d.ndim)
      (he : Scalar.eval op .method ss = .error cause) :
      Locates op d path (ss.map .scalar) ⟨cause, (d.trail op path).reverse⟩
  | lengths {ws : List Value} {lens : List Nat} {m : Descriptor}
      (hm : d.below? path.length = some m) (hl : Lengths ws lens)
      (hr : ¬∃ n, Reconciles lens n) :
      Locates op d path ws ⟨.sizes lens, (d.trail op path ++ [Frame.method m.name op]).reverse⟩

theorem Locates.inside {op : Op} {info : TypeInfo} {element : Descriptor} {extent : Extent}
    {path : List Nat} {ws : List Value} {e : DispatchError} (h : element.Locates op path ws e)
    {i : Nat} : (nested info element extent).Locates op (i :: path) ws
      ((e.within (.element i)).within (.method info.name op)) := by
  cases h with
  | evaluation hdepth he =>
    have h' : (nested info element extent).Locates op (i :: path) _ _ :=
      .evaluation (congrArg (· + 1) hdepth) he
    simpa [trail, DispatchError.within] using h'
  | lengths hm hl hr =>
    have h' : (nested info element extent).Locates op (i :: path) ws _ := .lengths hm hl hr
    simpa [trail, DispatchError.within] using h'

theorem Elementwise.plain_generic {op : Op} {d : Descriptor} (h : d.Elementwise op) :
    d.isTensor = false ∧ d.op op = .generic := by
  cases d with
  | flat info kind extent => exact ⟨rfl, h⟩
  | nested info element extent => exact ⟨rfl, h.1⟩
  | tensor info backing => cases h

end Descriptor

/-- The place at `path`, where the operands have the elements `ws`, is the lexicographically first
of the places that the evaluation reaches and that do not settle. -/
structure FirstUnsettled (op : Op) (vs : List Value) (path : List Nat) (ws : List Value) :
    Prop where
  reached : Reached vs path
  elementsAt : ElementsAt vs path ws
  unsettled : ¬Settles op ws
  first : ∀ q us, q < path → Reached vs q → ElementsAt vs q us → Settles op us

/-- The way of an evaluation to the place where it fails: on every level the lengths agree, and all
positions before the one that is entered settle as a whole. -/
inductive FailsAt (op : Op) : List Value → List Nat → List Value → Prop
  | here {vs : List Value} (h : ¬Settles op vs) : FailsAt op vs [] vs
  | inside {vs us ws : List Value} {lens path : List Nat} {n i : Nat} (hl : Lengths vs lens)
      (hn : Reconciles lens n) (hi : i < n) (hu : Elements vs i us)
      (hbefore : ∀ j, j < i → ∃ us, Elements vs j us ∧ AllSettle op us)
      (h : FailsAt op us path ws) : FailsAt op vs (i :: path) ws

section Places

variable {op : Op} {vs us ws : List Value} {path : List Nat}

theorem exists_elements_of_elementsAt {i : Nat} (h : ElementsAt vs (i :: path) ws) :
    ∃ us, Elements vs i us ∧ ElementsAt us path ws := by
  induction h with
  | nil => exact ⟨[], .nil, .nil⟩
  | cons hv _ ih =>
    obtain ⟨us, hus, hws⟩ := ih
    obtain ⟨u, hu, hw⟩ := Option.bind_eq_some_iff.mp hv
    exact ⟨u :: us, .cons hu hus, .cons hw hws⟩

theorem not_settles_of_lengths {lens : List Nat} (hne : vs ≠ []) (hl : Lengths vs lens)
    (hr : ¬∃ n, Reconciles lens n) : ¬Settles op vs := by
  rintro (⟨lens', n, hl', hn⟩ | ⟨ss, s, rfl, _⟩)
  · exact hr ⟨n, hl.unique hl' ▸ hn⟩
  · exact not_lengths_scalars (by simpa using hne) hl

theorem not_settles_scalars {ss : List Scalar} (hne : ss ≠ []) {cause : Cause}
    (he : Scalar.eval op .method ss = .error cause) : ¬Settles op (ss.map .scalar) := by
  rintro (⟨lens, _, hl, _⟩ | ⟨ss', s, hss, hs⟩)
  · exact not_lengths_scalars hne hl
  · rw [← scalars_inj.mp hss, he] at hs
    cases hs

theorem not_elements_scalars {ss : List Scalar} (hs : ss ≠ []) {i : Nat} :
    ¬Elements (ss.map .scalar) i us := by
  intro h
  cases ss with
  | nil => exact hs rfl
  | cons s ss =>
    cases h with
    | cons hv _ => cases hv

namespace FailsAt

theorem firstUnsettled (h : FailsAt op vs path ws) : FirstUnsettled op vs path ws := by
  induction h with
  | here h =>
    exact ⟨.here _, elementsAt_nil.mpr rfl, h, fun q us hq => absurd hq (List.not_lt_nil q)⟩
  | @inside vs us ws lens path n i hl hn hi hu hbefore _ ih =>
    obtain ⟨hreached, helements, hunsettled, hfirst⟩ := ih
    refine ⟨.inside hl hn hi hu hreached, (elementsAt_cons hu).mpr helements, hunsettled,
      fun q xs hq hreach hxs => ?_⟩
    cases q with
    | nil =>
      rw [elementsAt_nil.mp hxs]
      exact .inl ⟨lens, n, hl, hn⟩
    | cons j q =>
      obtain ⟨ys, hys, hxs⟩ := exists_elements_of_elementsAt hxs
      have hinside : Reached ys q := by
        cases hreach with
        | inside _ _ _ hu' hreach => exact hys.unique hu' ▸ hreach
      -- an earlier place lies at an earlier position, or at the same one and earlier in it
      rcases List.cons_lt_cons_iff.mp hq with hlt | ⟨rfl, hlt⟩
      · obtain ⟨zs, hzs, hall⟩ := hbefore j hlt
        cases hys.unique hzs
        exact hall q xs hinside hxs
      · cases hys.unique hu
        exact hfirst q xs hlt hinside hxs

theorem exists_beside (h : FailsAt op vs path ws) {i j : Nat} {before after : List Nat}
    (hpath : path = before ++ i :: after) (hj : j < i) :
    ∃ us, ElementsAt vs (before ++ [j]) us ∧ AllSettle op us := by
  induction h generalizing before with
  | here h => simp at hpath
  | inside hl hn hi hu hbefore _ ih =>
    cases before with
    | nil =>
      obtain ⟨rfl, -⟩ := List.cons.inj hpath
      obtain ⟨us, hus, hall⟩ := hbefore j hj
      exact ⟨us, (elementsAt_cons hus).mpr (elementsAt_nil.mpr rfl), hall⟩
    | cons k before =>
      obtain ⟨rfl, hrest⟩ := List.cons.inj hpath
      obtain ⟨us, hus, hall⟩ := ih hrest
      exact ⟨us, (elementsAt_cons hu).mpr hus, hall⟩

end FailsAt

end Places

namespace Registry

variable {r : Registry} {self : Dispatcher} {op : Op} {held vs ws : List Value} {site : Site}
  {d : Descriptor} {path : List Nat}

/-! ## Operands at a place -/

/-- At a place there are instances of the type of its depth, or scalars below the last level. -/
theorem elementsAt_cases (ht : r.types.Regular) (hd : r.types.Registered d)
    (he : d.Elementwise op) (hvs : ∀ v ∈ vs, d.IsInstance v) (hne : vs ≠ [])
    (h : ElementsAt vs path ws) :
    (∃ m, d.below? path.length = some m ∧ r.types.Registered m ∧ m.Elementwise op ∧
        ∀ w ∈ ws, m.IsInstance w) ∨
      path.length = d.ndim ∧ ∃ ss : List Scalar, ws = ss.map .scalar := by
  induction d generalizing vs path with
  | flat info leaf extent =>
    cases path with
    | nil =>
      rw [elementsAt_nil.mp h]
      exact .inl ⟨_, rfl, hd, he, hvs⟩
    | cons i path =>
      obtain ⟨us, hus, hws⟩ := exists_elements_of_elementsAt h
      obtain ⟨ss, rfl⟩ := exists_scalars_of_hasItem (hasItem_of_elements hvs hus)
      cases path with
      | nil => exact .inr ⟨rfl, ss, elementsAt_nil.mp hws⟩
      | cons j path =>
        obtain ⟨xs, hxs, _⟩ := exists_elements_of_elementsAt hws
        have hlen : vs.length = ss.length := by simpa using hus.length_eq
        have hss : ss ≠ [] :=
          List.ne_nil_of_length_pos (hlen ▸ List.length_pos_of_ne_nil hne)
        exact absurd hxs (not_elements_scalars hss)
  | nested info element extent ih =>
    cases path with
    | nil =>
      rw [elementsAt_nil.mp h]
      exact .inl ⟨_, rfl, hd, he, hvs⟩
    | cons i path =>
      obtain ⟨us, hus, hws⟩ := exists_elements_of_elementsAt h
      have hus' : us ≠ [] := List.ne_nil_of_length_pos
        (hus.length_eq ▸ List.length_pos_of_ne_nil hne)
      rcases ih (ht.registered_component hd rfl) he.2 (hasItem_of_elements hvs hus) hus' hws with
        h | ⟨hdepth, hss⟩
      · exact .inl h
      · exact .inr ⟨congrArg (· + 1) hdepth, hss⟩
  | tensor info backing => cases he

theorem exists_value_of_allSettle (ht : r.types.Regular) (hd : r.types.Registered d)
    (he : d.Elementwise op) (hvs : ∀ v ∈ vs, d.IsInstance v) (hpos : 0 < vs.length)
    (hle : vs.length ≤ 3) (hws : ElementsAt vs path ws) (hall : AllSettle op ws)
    (held : List Value) (site : Site) :
    ∃ w, (r.apply ⟨.normal, op, .method⟩ held site ws).result = .ok (.value w) := by
  have hlen : vs.length = ws.length := hws.length_eq
  rcases elementsAt_cases ht hd he hvs (List.ne_nil_of_length_pos hpos) hws with
    ⟨m, _, hm, hem, hinst⟩ | ⟨_, ss, rfl⟩
  · exact (applyWithin_elementwise ht hm hem (ndim_lt_levels hm ws) hinst (hlen ▸ hpos)
      (hlen ▸ hle) held site).1.mpr hall
  · rw [List.length_map] at hlen
    have hc : Call.Takes ⟨.normal, op, .method⟩ ss.length :=
      Call.takes_of_operandCount? rfl (hlen ▸ hpos) (hlen ▸ hle)
    obtain ⟨s, hs⟩ := (allSettle_scalars (List.ne_nil_of_length_pos hc.pos)).mp hall
    obtain ⟨k, hk⟩ := r.exists_apply_eq (ss.map .scalar)
    refine ⟨.scalar s, ?_⟩
    rw [hk]
    exact (step_scalars_eq_ok_iff hc).mpr ⟨s, hs, rfl⟩

/-! ## Errors -/

/-- How a call on operands `vs` of one type fails, whose nested calls go to `self`: its lengths do
not agree, or the call on the elements at one position fails after those before it have returned. -/
inductive LevelFails (r : Registry) (self : Dispatcher) (op : Op) (d : Descriptor)
    (vs : List Value) : DispatchError → Prop
  | lengths {lens : List Nat} (hl : Lengths vs lens) (hr : ¬∃ n, Reconciles lens n) :
      LevelFails r self op d vs ⟨.sizes lens, [.method d.name op]⟩
  | position {lens : List Nat} {n i : Nat} {us : List Value} {s : Site} {e : DispatchError}
      (hl : Lengths vs lens) (hr : Reconciles lens n) (hi : i < n) (hus : Elements vs i us)
      (hbefore : ∀ j, j < i → ∃ us s v, Elements vs j us ∧
        (self ⟨.normal, op, .method⟩ us s us).result = .ok (.value v))
      (he : self.onElements r.types s ⟨.normal, op, .method⟩ us = .error e) :
      LevelFails r self op d vs ((e.within (.element i)).within (.method d.name op))

/-- A call on one type fails in one of these ways, if it can store the results of its nested
calls. -/
theorem levelFails_of_step (ht : r.types.Regular) (hd : r.types.Registered d)
    (hp : d.isTensor = false) (hop : d.op op = .generic) (hvs : ∀ v ∈ vs, d.IsInstance v)
    (hpos : 0 < vs.length) (hle : vs.length ≤ 3)
    (hself : ∀ i us s v, Elements vs i us →
      (self ⟨.normal, op, .method⟩ us s us).result = .ok (.value v) →
        ∃ w, d.form.admit? v = some w) {e : DispatchError}
    (h : (r.step self ⟨.normal, op, .method⟩ held site vs).result = .error e) :
    r.LevelFails self op d vs e := by
  have harr : r.Arrays vs := fun v hv => ⟨d, hd, hvs v hv⟩
  obtain ⟨lens, hl⟩ := exists_lengths harr
  have hne : lens ≠ [] := List.ne_nil_of_length_pos (hl.length_eq ▸ hpos)
  rw [step_generic_result ht hd hp hop hvs hpos hle hl, escaping_eq_error_iff] at h
  obtain ⟨e₁, h, rfl⟩ := h
  cases hrec : reconcileLengths lens with
  | error cause =>
    rw [hrec] at h
    cases h
    obtain ⟨rfl, hr⟩ := (reconcileLengths_eq_error_iff hne).mp hrec
    exact .lengths hl hr
  | ok n =>
    have hr := (reconcileLengths_eq_ok_iff_reconciles hne).mp hrec
    rw [hrec] at h
    have hreads : (r.elementLoop self op d vs lens site).Reads vs n (d.alloc site n) :=
      reads_of_arrays ht harr hl (ht.access_of_registered hd) _ _ _ _
    rcases hrun : (r.elementLoop self op d vs lens site).run (d.alloc site n) n with ⟨e₂ | u, q⟩
    · simp only [hrun] at h
      cases h
      obtain ⟨i, hi, hq, hposition⟩ := hreads.run_filledTo.2 _ q hrun
      obtain ⟨us, hus⟩ := exists_elements_of_instances hp hvs hl hr hi
      cases hcp : self.onElements r.types ((site.child 4).child i) ⟨.normal, op, .method⟩ us with
      | error e =>
        rw [hreads.position_of_counterpart_error hi hq.rest hus hcp] at hposition
        cases hposition
        refine .position hl hr hi hus (fun j hj => ?_) hcp
        obtain ⟨us', v, _, hus', hv, _, _⟩ := hq.done j hj
        exact ⟨us', _, v, hus', Dispatcher.onElements_eq_ok_iff.mp hv⟩
      | ok v =>
        obtain ⟨w, hw⟩ := hself i us _ v hus (Dispatcher.onElements_eq_ok_iff.mp hcp)
        have hlt : i < q.length := by
          rw [hq.length_eq, d.length_alloc hp]
          exact hi
        obtain ⟨q', hq'⟩ := Payload.exists_set_eq_ok hlt (by rwa [hq.form_eq, d.form_alloc])
        rw [(hreads.position_eq_ok_iff hi hq.rest).mpr ⟨us, v, hus, hcp, hq'⟩] at hposition
        cases hposition
    · simp only [hrun] at h
      cases h

theorem onElements_eq_error_iff {t : TypeTable} {c : Call} {us : List Value} {e : DispatchError} :
    self.onElements t site c us = .error e ↔
      (self c us site us).result = .error e ∨
        (self c us site us).result = .ok .notImplemented ∧
          e = .ofCause (.nested c.op (us.map t.typeName)) := by
  unfold Dispatcher.onElements
  split <;> simp_all [pure, Except.pure, fail, throw, throwThe, MonadExceptOf.throw, eq_comm]

/-- The error of a call leads to the place where the evaluation fails. -/
theorem applyWithin_error (ht : r.types.Regular) (hd : r.types.Registered d)
    (he : d.Elementwise op) {k : Nat} (hk : d.ndim < k) (hvs : ∀ v ∈ vs, d.IsInstance v)
    (hpos : 0 < vs.length) (hle : vs.length ≤ 3) {e : DispatchError}
    (h : (r.applyWithin k ⟨.normal, op, .method⟩ held site vs).result = .error e) :
    ∃ path ws, FailsAt op vs path ws ∧ d.Locates op path ws e := by
  have hne : vs ≠ [] := List.ne_nil_of_length_pos hpos
  -- a level tells the position that fails, and the level below the place in it
  induction d generalizing k vs held site e with
  | flat info leaf extent =>
    obtain ⟨k, rfl⟩ : ∃ m, k = m + 2 := ⟨k - 2, by simp only [Descriptor.ndim] at hk; omega⟩
    have hscalars : ∀ i us, Elements vs i us → ∃ ss, us = ss.map Value.scalar ∧
        ss ≠ [] ∧ Call.Takes ⟨.normal, op, .method⟩ ss.length := by
      intro i us hus
      obtain ⟨ss, rfl⟩ := exists_scalars_of_hasItem (hasItem_of_elements hvs hus)
      have hlen := hus.length_eq
      rw [List.length_map] at hlen
      exact ⟨ss, rfl, List.ne_nil_of_length_pos (by omega),
        Call.takes_of_operandCount? rfl (by omega) (by omega)⟩
    have hlevel : r.LevelFails (r.applyWithin (k + 1)) _ _ _ _ :=
      levelFails_of_step ht hd rfl he hvs hpos hle (fun i us s v hus hv => by
        obtain ⟨ss, rfl, _, hc⟩ := hscalars i us hus
        obtain ⟨x, _, rfl⟩ := (step_scalars_eq_ok_iff hc).mp hv
        exact ⟨_, rfl⟩) h
    cases hlevel with
    | lengths hl hr => exact ⟨[], vs, .here (not_settles_of_lengths hne hl hr), .lengths rfl hl hr⟩
    | @position lens n i us s e hl hr hi hus hbefore he' =>
      obtain ⟨ss, rfl, hss, hc⟩ := hscalars i us hus
      have hcp : (r.applyWithin (k + 1)).onElements r.types s _ _ = _ := onElements_scalars hc s
      rw [he'] at hcp
      cases heval : Scalar.eval op .method ss with
      | ok x => simp [heval] at hcp
      | error cause =>
        rw [heval] at hcp
        cases hcp
        refine ⟨[i], ss.map .scalar,
          .inside hl hr hi hus (fun j hj => ?_) (.here (not_settles_scalars hss heval)),
          .evaluation rfl heval⟩
        obtain ⟨us', s', v, hus', hv⟩ := hbefore j hj
        obtain ⟨ss', rfl, hss', hc'⟩ := hscalars j us' hus'
        obtain ⟨x, hx, _⟩ := (step_scalars_eq_ok_iff hc').mp hv
        exact ⟨_, hus', (allSettle_scalars hss').mpr ⟨x, hx⟩⟩
  | nested info element extent ih =>
    obtain ⟨k, rfl⟩ : ∃ m, k = m + 1 := ⟨k - 1, by omega⟩
    have hke : element.ndim < k := by
      simp only [Descriptor.ndim] at hk
      omega
    have hde : r.types.Registered element := ht.registered_component hd rfl
    have hitem : ∀ j us s, Elements vs j us → _ ∧ _ := fun j us s hus =>
      have hlen : vs.length = us.length := hus.length_eq
      applyWithin_elementwise ht hde he.2 hke (hasItem_of_elements hvs hus) (hlen ▸ hpos)
        (hlen ▸ hle) us s
    have hlevel : r.LevelFails (r.applyWithin k) _ _ _ _ := levelFails_of_step ht hd rfl he.1 hvs
      hpos hle (fun _ _ _ v _ _ => ⟨v, rfl⟩) h
    cases hlevel with
    | lengths hl hr => exact ⟨[], vs, .here (not_settles_of_lengths hne hl hr), .lengths rfl hl hr⟩
    | @position lens n i us s e hl hr hi hus hbefore he' =>
      have hlen : vs.length = us.length := hus.length_eq
      have hinner : (r.applyWithin k ⟨.normal, op, .method⟩ us s us).result = .error e := by
        rcases onElements_eq_error_iff.mp he' with h' | ⟨h', _⟩
        · exact h'
        · obtain ⟨w, hw, _⟩ := (hitem i us s hus).2 _ h'
          cases hw
      obtain ⟨path, ws, hfails, hlocates⟩ := ih hde he.2 hke (hasItem_of_elements hvs hus)
        (hlen ▸ hpos) (hlen ▸ hle) hinner (List.ne_nil_of_length_pos (hlen ▸ hpos))
      refine ⟨i :: path, ws, .inside hl hr hi hus (fun j hj => ?_) hfails, hlocates.inside⟩
      obtain ⟨us', s', v, hus', hv⟩ := hbefore j hj
      exact ⟨us', hus', (hitem j us' s' hus').1.mp ⟨v, hv⟩⟩
  | tensor info backing => cases he

theorem exists_error_of_locates (ht : r.types.Regular) (hd : r.types.Registered d)
    (he : d.Elementwise op) (hvs : ∀ v ∈ vs, d.IsInstance v) (hpos : 0 < vs.length)
    (hle : vs.length ≤ 3) (hws : ElementsAt vs path ws) {e : DispatchError}
    (h : d.Locates op path ws e) (held : List Value) (site : Site) :
    ∃ e', (r.apply ⟨.normal, op, .method⟩ held site ws).result = .error e' ∧
      e'.cause = e.cause := by
  have hlen : vs.length = ws.length := hws.length_eq
  obtain ⟨k, hk⟩ := r.exists_apply_eq ws
  rw [hk]
  cases h with
  | @evaluation ss cause hdepth heval =>
    rw [List.length_map] at hlen
    rw [step_scalars_result (Call.takes_of_operandCount? rfl (hlen ▸ hpos) (hlen ▸ hle))]
    simp only [heval]
    exact ⟨_, rfl, rfl⟩
  | @lengths _ lens m hm hl hr =>
    have hlens : lens ≠ [] := List.ne_nil_of_length_pos (hl.length_eq ▸ hlen ▸ hpos)
    rcases elementsAt_cases ht hd he hvs (List.ne_nil_of_length_pos hpos) hws with
      ⟨m', _, hm', hem, hinst⟩ | ⟨_, ss, rfl⟩
    · obtain ⟨hp, hop⟩ := hem.plain_generic
      rw [step_generic_result ht hm' hp hop hinst (hlen ▸ hpos) (hlen ▸ hle) hl,
        (reconcileLengths_eq_error_iff hlens).mpr ⟨rfl, hr⟩]
      exact ⟨_, rfl, rfl⟩
    · rw [List.length_map] at hlen
      exact absurd hl (not_lengths_scalars (List.ne_nil_of_length_pos (hlen ▸ hpos)))

end Registry

/-- The trail of an error locates the failure. An operation that every level of a type takes
position by position fails on operands of the type with frames that lead, from the outside, to the
lexicographically first place that does not settle: the frames name by turns the type of a level and
the position in it, and end with a position where the scalars have no value and with a type where
the lengths do not agree. Whatever stands at an earlier position beside the path evaluates to a
value, and the operation on the elements at the place itself fails for the same cause. -/
theorem apply_error_trail {r : Registry} (hr : r.Built) (ha : r.types.StockAccess)
    {d : Descriptor} {op : Op} (hd : r.types.Registered d) (he : d.Elementwise op)
    {vs : List Value} (hvs : ∀ v ∈ vs, d.IsInstance v) (hlen : vs.length = op.arity)
    {held : List Value} {site : Site} {e : DispatchError}
    (h : (r.apply ⟨.normal, op, .method⟩ held site vs).result = .error e) :
    ∃ path ws, FirstUnsettled op vs path ws ∧ d.Locates op path ws e ∧
      (∀ before i after j, path = before ++ i :: after → j < i →
        ∃ us, ElementsAt vs (before ++ [j]) us ∧ ∀ held site,
          ∃ w, (r.apply ⟨.normal, op, .method⟩ held site us).result = .ok (.value w)) ∧
      ∀ held site, ∃ e', (r.apply ⟨.normal, op, .method⟩ held site ws).result = .error e' ∧
        e'.cause = e.cause := by
  have ht : r.types.Regular := ⟨hr.sound, ha⟩
  have hpos : 0 < vs.length := hlen ▸ op.arity_pos
  have hle : vs.length ≤ 3 := hlen ▸ op.arity_le_three
  obtain ⟨path, ws, hfails, hlocates⟩ :=
    r.applyWithin_error ht hd he (Registry.ndim_lt_levels hd vs) hvs hpos hle h
  have hfirst := hfails.firstUnsettled
  refine ⟨path, ws, hfirst, hlocates, fun before i after j hpath hj => ?_, fun held site =>
    r.exists_error_of_locates ht hd he hvs hpos hle hfirst.elementsAt hlocates held site⟩
  obtain ⟨us, hus, hall⟩ := hfails.exists_beside hpath hj
  exact ⟨us, hus, r.exists_value_of_allSettle ht hd he hvs hpos hle hus hall⟩

def Stock.integerRows (site : Site) (rows : List (List (IntType.Word .int32))) : Value :=
  .array ⟨site, ⟨14⟩, .nested (rows.zipIdx.map fun (row, i) => integerArray (site.child i) row)⟩

theorem Stock.isInstance_integerRows (site : Site) (xs : List (List (IntType.Word .int32))) :
    rows.IsInstance (integerRows site xs) := by
  refine ⟨_, rfl, rfl, fun v hv => ?_, trivial⟩
  obtain ⟨⟨row, i⟩, _, rfl⟩ := List.mem_map.mp hv
  exact isInstance_integerArray _ row

/-- A division by zero in the second row. The only divisor of the first row serves both of its
positions. -/
theorem apply_error_trail_rows :
    let vs := [Stock.integerRows ⟨[0]⟩ [[6, 7], [6, 6]], Stock.integerRows ⟨[1]⟩ [[2], [3, 0]]]
    let e : DispatchError := ⟨.kernel .divisionByZero,
      [.element 1, .method "Int32X" .floordiv, .element 1, .method "Rows" .floordiv]⟩
    Stock.rowRegistry.types.Registered Stock.rows ∧ Stock.rows.Elementwise .floordiv ∧
      (∀ v ∈ vs, Stock.rows.IsInstance v) ∧
      (Stock.rowRegistry.apply ⟨.normal, .floordiv, .method⟩ [] ⟨[2]⟩ vs).result = .error e ∧
      ∃ path ws, FirstUnsettled .floordiv vs path ws ∧ Stock.rows.Locates .floordiv path ws e ∧
        ∀ held site, ∃ e',
          (Stock.rowRegistry.apply ⟨.normal, .floordiv, .method⟩ held site ws).result = .error e' ∧
            e'.cause = e.cause := by
  intro vs e
  have hd : Stock.rowRegistry.types.Registered Stock.rows := rfl
  have he : Stock.rows.Elementwise .floordiv := ⟨rfl, rfl⟩
  have hvs : ∀ v ∈ vs, Stock.rows.IsInstance v := by
    simp only [vs, List.forall_mem_cons]
    exact ⟨Stock.isInstance_integerRows _ _, Stock.isInstance_integerRows _ _,
      List.forall_mem_nil _⟩
  have h : (Stock.rowRegistry.apply ⟨.normal, .floordiv, .method⟩ [] ⟨[2]⟩ vs).result =
      .error e := by rfl
  obtain ⟨path, ws, hfirst, hlocates, _, hdirect⟩ := apply_error_trail Stock.built_rowRegistry
    Stock.stockAccess_rowRegistry hd he hvs rfl h
  exact ⟨hd, he, hvs, h, path, ws, hfirst, hlocates, hdirect⟩

end ArrayDispatch
