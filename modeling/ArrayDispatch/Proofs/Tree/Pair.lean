import ArrayDispatch.Proofs.Tree.Outline
import ArrayDispatch.Proofs.Tree.Traverse
import ArrayDispatch.Proofs.Types.Lawful
import ArrayDispatch.Tree.Pair

/-!
The walk over two trees in step. It gets to its end if and only if the trees have one outline, and
then it pairs off what the walks over the single trees show.
-/

namespace ArrayDispatch

open Walk

variable {ι σ : Type} [ForeignTypes ι] {t : TypeTable}

/-! ## Walks that fail, and walks in step -/

namespace Walk

variable {α β : Type} {f : Frame}

def Fails (w : Walk σ α) : Prop := ∀ s, ∃ e s', w.runFrom s = (.error e, s')

theorem fails_failed (c : Cause) : (failed c : Walk σ α).Fails := fun s => ⟨.ofCause c, s, rfl⟩

@[simp] theorem failed_bind (c : Cause) (k : α → Walk σ β) : (failed c >>= k) = failed c := rfl

theorem Fails.framed {w : Walk σ α} (h : w.Fails) (f : Frame) : (framed f w).Fails := by
  intro s
  obtain ⟨e, s', hs⟩ := h s
  exact ⟨e.within f, s', by rw [runFrom_framed, hs]; rfl⟩

theorem Fails.bind {w : Walk σ α} (h : w.Fails) (k : α → Walk σ β) : (w >>= k).Fails := by
  intro s
  obtain ⟨e, s', hs⟩ := h s
  exact ⟨e, s', runFrom_bind_of_error hs k⟩

def TotalPair (visit : Value → Value → Walk σ Unit) : Prop :=
  Total fun p : Value × Value => visit p.1 p.2

/-- A callback for pairs that also notes what it is given. -/
def notedPair (visit : Value → Value → Walk σ Unit) (v w : Value) :
    Walk (List (Value × Value) × σ) Unit :=
  noted (fun p : Value × Value => visit p.1 p.2) (v, w)

theorem TotalPair.notedPair {visit : Value → Value → Walk σ Unit} (hv : TotalPair visit) :
    TotalPair (notedPair visit) :=
  Total.noted hv

/-- Two walks show `vs` and `ws`. A walk over both at once pairs them off, if the condition that the
walk checks on its way is met, and fails otherwise. -/
inductive InStep (visit : Value → Value → Walk σ Unit) (same : Prop) (vs ws : List Value)
    (w : Walk σ Unit) : Prop
  | agree (h : same) (hlen : vs.length = ws.length)
      (hw : w = forM (vs.zip ws) fun p => visit p.1 p.2)
  | differ (h : ¬same) (hw : w.Fails)

section InStep

variable {visit : Value → Value → Walk σ Unit} {p q : Prop} {vs ws vs' ws' : List Value}
  {w w' : Walk σ Unit}

theorem InStep.framed (hv : TotalPair visit) (h : InStep visit p vs ws w) (f : Frame) :
    InStep visit p vs ws (framed f w) := by
  cases h with
  | agree h hlen hw => exact .agree h hlen (by rw [hw]; exact hv.framed_forM f _)
  | differ h hw => exact .differ h (hw.framed f)

theorem InStep.of_iff (h : InStep visit p vs ws w) (hpq : q ↔ p) : InStep visit q vs ws w := by
  rw [hpq]
  exact h

theorem InStep.nil : InStep visit True [] [] (pure ()) := .agree trivial rfl rfl

theorem InStep.single (v w : Value) : InStep visit True [v] [w] (visit v w) :=
  .agree trivial rfl (by simp)

theorem InStep.append (hv : TotalPair visit) (h : InStep visit p vs ws w)
    (h' : InStep visit q vs' ws' w') :
    InStep visit (p ∧ q) (vs ++ vs') (ws ++ ws') (w >>= fun _ => w') := by
  cases h with
  | differ h hw => exact .differ (fun hpq => h hpq.1) (hw.bind _)
  | agree h hlen hw =>
    cases h' with
    | agree h' hlen' hw' =>
      refine .agree ⟨h, h'⟩ (by simp [hlen, hlen']) ?_
      rw [List.zip_append hlen, List.forM_append, hw, hw']
    | differ h' hw' =>
      refine .differ (fun hpq => h' hpq.2) fun s => ?_
      obtain ⟨s₁, hs⟩ := hv.exists_passes (vs.zip ws) s
      obtain ⟨e, s₂, he⟩ := hw' s₁
      exact ⟨e, s₂, by rw [hw, runFrom_bind_of_ok hs.runFrom_forM]; exact he⟩

theorem InStep.forM_zip (hv : TotalPair visit) {outline : α → β} {shown : α → List Value}
    {step : α × α → Walk σ Unit} {xs ys : List α} (hlen : xs.length = ys.length)
    (h : ∀ p ∈ xs.zip ys,
      InStep visit (outline p.1 = outline p.2) (shown p.1) (shown p.2) (step p)) :
    InStep visit (xs.map outline = ys.map outline) (xs.flatMap shown) (ys.flatMap shown)
      (forM (xs.zip ys) step) := by
  induction xs generalizing ys with
  | nil =>
    obtain rfl := List.length_eq_zero_iff.mp hlen.symm
    exact .agree rfl rfl rfl
  | cons x xs ih =>
    cases ys with
    | nil => cases hlen
    | cons y ys =>
      have hrest := ih (Nat.succ.inj hlen) fun p hp => h p (List.mem_cons_of_mem _ hp)
      exact ((h (x, y) List.mem_cons_self).append hv hrest).of_iff (by simp)

theorem InStep.sameLength (hv : TotalPair visit) {outline : α → β} {shown : α → List Value}
    {step : α × α → Walk σ Unit} {xs ys : List α}
    (h : ∀ p ∈ xs.zip ys,
      InStep visit (outline p.1 = outline p.2) (shown p.1) (shown p.2) (step p)) :
    InStep visit (xs.map outline = ys.map outline) (xs.flatMap shown) (ys.flatMap shown)
      (sameLength xs.length ys.length >>= fun _ => forM (xs.zip ys) step) := by
  by_cases hlen : xs.length = ys.length
  · rw [Walk.sameLength, if_pos hlen, pure_bind]
    exact .forM_zip hv hlen h
  · rw [Walk.sameLength, if_neg hlen, failed_bind]
    refine .differ (fun hmap => hlen ?_) (fails_failed _)
    simpa using congrArg List.length hmap

end InStep

end Walk

variable {walker : String} {visit : Value → Value → Walk σ Unit}

/-! ## Values -/

section Values

variable {a b : Object} {depth : ℕ}

theorem traverseValues_of_tag_ne {v w : Value} (h : v.tag ≠ w.tag) :
    (traverseValues t walker visit depth v w).Fails := by
  rw [traverseValues.eq_def]
  dsimp only
  rw [if_pos h]
  exact (fails_failed _).framed _

theorem traverseValues_of_flat {info : TypeInfo} {kind : Kind} {extent : Extent}
    (hd : t.Registered (.flat info kind extent)) (ha : a.type = info.key) (hb : b.type = a.type) :
    traverseValues t walker visit depth (.array a) (.array b) =
      framed (.walk walker [t.typeName (.array a), t.typeName (.array b)])
        (visit (.array a) (.array b)) := by
  rw [traverseValues, TypeTable.descriptor_of_type_eq hd ha]
  simp [Value.tag, hb, Descriptor.isTensor, Descriptor.ndim]

theorem traverseValues_of_tensor {info : TypeInfo} {backing : Descriptor}
    (hd : t.Registered (.tensor info backing)) (ha : a.type = info.key) (hb : b.type = a.type)
    {x y : Object} {m n : List ℕ} (hx : a.payload = .tensor x m) (hy : b.payload = .tensor y n) :
    traverseValues t walker visit depth (.array a) (.array b) =
      framed (.walk walker [t.typeName (.array a), t.typeName (.array b)])
        (visit (.array x) (.array y)) := by
  rw [traverseValues, TypeTable.descriptor_of_type_eq hd ha]
  simp [Value.tag, hb, Descriptor.isTensor, Descriptor.tensorParts_of_tensor hx,
    Descriptor.tensorParts_of_tensor hy]

theorem traverseValues_of_nested (ht : t.Regular) {info : TypeInfo} {element : Descriptor}
    {extent : Extent} (hd : t.Registered (.nested info element extent)) (ha : a.type = info.key)
    (hb : b.type = a.type) {xs ys : List Value} (hx : a.payload = .nested xs)
    (hy : b.payload = .nested ys) (hm : extent.Admits xs.length) (hn : extent.Admits ys.length) :
    traverseValues t walker visit (depth + 1) (.array a) (.array b) =
      framed (.walk walker [t.typeName (.array a), t.typeName (.array b)])
        (sameLength xs.length ys.length >>= fun _ =>
          forM (xs.zip ys) fun p => traverseValues t walker visit depth p.1 p.2) := by
  have hndim := Descriptor.not_ndim_nested_le_one info element extent
  rw [traverseValues, TypeTable.descriptor_of_type_eq hd ha]
  simp only [Value.tag, hb, ne_eq, not_true_eq_false, if_false, ofAttempt_ok, pure_bind,
    Descriptor.isTensor, Bool.false_eq_true, hndim, Descriptor.lengthOf_of_nested ht hd hx hm,
    Descriptor.lengthOf_of_nested ht hd hy hn]
  by_cases hlen : xs.length = ys.length
  · have hzip : (xs.zip ys).length = xs.length := by rw [List.length_zip, ← hlen, Nat.min_self]
    rw [sameLength, if_pos hlen, pure_bind, pure_bind, ← hzip]
    refine congrArg _ (forM_range fun i p hp => ?_)
    obtain ⟨hxi, hyi⟩ := List.getElem?_zip_eq_some.mp hp
    rw [itemAt_of_nested ht hd hx hxi, itemAt_of_nested ht hd hy hyi, pure_bind, pure_bind]
  · rw [sameLength, if_neg hlen, failed_bind, failed_bind]

variable {d : Descriptor} {v w : Value}

theorem traverseValues_of_instances (ht : t.Regular) (hv : TotalPair visit) (hd : t.Registered d)
    (hi : d.IsInstance v) (hj : d.IsInstance w) (hdepth : v.depth ≤ depth) :
    InStep visit ((v.outline : Outline ι) = w.outline) (v.shown ι) (w.shown ι)
      (traverseValues t walker visit depth v w) := by
  induction d generalizing v w depth with
  | flat info kind extent =>
    obtain ⟨a, rfl, ha, _⟩ := id hi
    obtain ⟨b, rfl, hb, _⟩ := id hj
    obtain ⟨_, hx⟩ := hi.exists_flat
    obtain ⟨_, hy⟩ := hj.exists_flat
    rw [traverseValues_of_flat hd ha (hb.trans ha.symm), Value.shown_of_flat hx,
      Value.shown_of_flat hy]
    refine ((InStep.single _ _).framed hv _).of_iff ?_
    rw [Value.outline_of_flat hx, Value.outline_of_flat hy, hb, ha]
    exact iff_of_true rfl trivial
  | nested info element extent ih =>
    obtain ⟨a, rfl, ha, _⟩ := id hi
    obtain ⟨b, rfl, hb, _⟩ := id hj
    obtain ⟨xs, hx, hxs, hm⟩ := hi.exists_nested
    obtain ⟨ys, hy, hys, hn⟩ := hj.exists_nested
    obtain ⟨depth, rfl, hdepths⟩ := Value.exists_depth_of_nested hx hdepth
    have hitems : ∀ p ∈ xs.zip ys,
        InStep visit ((p.1.outline : Outline ι) = p.2.outline) (p.1.shown ι) (p.2.shown ι)
          (traverseValues t walker visit depth p.1 p.2) := by
      intro p hp
      have hp₁ := (List.of_mem_zip hp).1
      have hp₂ := (List.of_mem_zip hp).2
      exact ih (ht.registered_component hd rfl) (hxs _ hp₁) (hys _ hp₂) (hdepths _ hp₁)
    rw [traverseValues_of_nested ht hd ha (hb.trans ha.symm) hx hy hm hn, Value.shown_of_nested hx,
      Value.shown_of_nested hy]
    refine ((InStep.sameLength hv hitems).framed hv _).of_iff ?_
    rw [Value.outline_of_nested hx, Value.outline_of_nested hy, hb, ha, Outline.node.injEq]
    exact and_iff_right rfl
  | tensor info backing ih =>
    obtain ⟨a, rfl, ha, _⟩ := id hi
    obtain ⟨b, rfl, hb, _⟩ := id hj
    obtain ⟨x, m, hx, _⟩ := hi.exists_tensor
    obtain ⟨y, n, hy, _⟩ := hj.exists_tensor
    rw [traverseValues_of_tensor hd ha (hb.trans ha.symm) hx hy, Value.shown_of_tensor hx,
      Value.shown_of_tensor hy]
    refine ((InStep.single _ _).framed hv _).of_iff ?_
    rw [Value.outline_of_tensor hx, Value.outline_of_tensor hy, hb, ha]
    exact iff_of_true rfl trivial

theorem traverseValues_inStep (ht : t.Regular) (hv : TotalPair visit) (hx : t.WellFormed v)
    (hy : t.WellFormed w) :
    InStep visit ((v.outline : Outline ι) = w.outline) (v.shown ι) (w.shown ι)
      (traverseValues t walker visit v.depth v w) := by
  by_cases htag : v.tag = w.tag
  case neg =>
    exact .differ (fun h => htag (Value.tag_eq_of_outline_eq h)) (traverseValues_of_tag_ne htag)
  cases v with
  | scalar x =>
    cases w with
    | array b => cases htag
    | scalar y =>
      have hkind : x.kind = y.kind := TypeTag.scalar.inj htag
      rw [traverseValues, if_neg (not_not_intro htag)]
      · refine (InStep.nil.framed hv _).of_iff ?_
        rw [Value.outline, Value.outline, hkind]
        exact iff_of_true rfl trivial
      · exact fun _ _ h => by cases h
  | array a =>
    cases w with
    | scalar y => cases htag
    | array b =>
      obtain ⟨d, hd, hi⟩ := hx.exists_isInstance
      obtain ⟨e, he, hj⟩ := hy.exists_isInstance
      have hkey : e.key = d.key := by
        rw [← hi.type_eq, ← hj.type_eq]
        exact (TypeTag.array.inj htag).symm
      obtain rfl := TypeTable.eq_of_key_eq hd he hkey
      exact traverseValues_of_instances ht hv hd hi hj le_rfl

end Values

/-! ## Nodes -/

section Nodes

variable {x y : Tree ι}

theorem pairEach_eq (xs ys : List (Tree ι)) :
    pairEach t walker visit xs ys =
      forM (xs.zip ys) fun p => traversePair t walker visit p.1 p.2 := by
  induction xs generalizing ys with
  | nil => rfl
  | cons x xs ih =>
    cases ys with
    | nil => rfl
    | cons y ys => rw [pairEach, ih, List.zip_cons_cons, List.forM_cons]

theorem pairEntries_eq (xs ys : List (String × Tree ι)) :
    pairEntries t walker visit xs ys =
      forM ((xs.map Prod.snd).zip (ys.map Prod.snd))
        fun p => traversePair t walker visit p.1 p.2 := by
  induction xs generalizing ys with
  | nil => rfl
  | cons x xs ih =>
    cases ys with
    | nil => rfl
    | cons y ys =>
      rw [pairEntries, ih, List.map_cons, List.map_cons, List.zip_cons_cons, List.forM_cons]

theorem traversePair_of_head_ne (h : x.head ≠ y.head) :
    (traversePair t walker visit x y).Fails := by
  have hfails : ∀ f c, (framed f (failed c) : Walk σ Unit).Fails :=
    fun f c => (fails_failed c).framed f
  cases x with
  | value v =>
    cases y with
    | value w => exact traverseValues_of_tag_ne fun htag => h (congrArg Head.value htag)
    | _ => exact hfails _ _
  | list xs =>
    cases y with
    | list ys => exact absurd rfl h
    | _ => exact hfails _ _
  | tuple xs =>
    cases y with
    | tuple ys => exact absurd rfl h
    | _ => exact hfails _ _
  | map xs =>
    cases y with
    | map ys =>
      rw [traversePair, if_neg fun hkeys => h (congrArg Head.map hkeys)]
      exact hfails _ _
    | _ => exact hfails _ _
  | record m xs =>
    cases y with
    | record n ys =>
      rw [traversePair, if_neg fun hmn => h (congrArg Head.record hmn)]
      exact hfails _ _
    | _ => exact hfails _ _
  | foreign a =>
    cases y with
    | foreign b =>
      have hname : ¬a.sameType b = true := by
        intro hname
        exact h (congrArg Head.foreign (by simpa [Foreign.sameType] using hname))
      rw [traversePair, if_neg hname]
      exact hfails _ _
    | _ => exact hfails _ _
  | empty =>
    cases y with
    | empty => exact absurd rfl h
    | _ => exact hfails _ _

theorem traversePair_of_head_eq (hx : x.value? = none) (htx : x.Tidy) (hty : y.Tidy)
    (h : x.head = y.head) :
    traversePair t walker visit x y = framed (.walk walker [t.nodeName x, t.nodeName y])
      (sameLength x.children.length y.children.length >>= fun _ =>
        forM (x.children.zip y.children) fun p => traversePair t walker visit p.1 p.2) := by
  cases x with
  | value v => cases hx
  | list xs =>
    cases y <;> cases h
    rw [traversePair, pairEach_eq]
    rfl
  | tuple xs =>
    cases y <;> cases h
    rw [traversePair, pairEach_eq]
    rfl
  | map xs =>
    cases y with
    | map ys =>
      have hkeys : xs.map Prod.fst = ys.map Prod.fst := Head.map.inj h
      have hlen : (xs.map Prod.snd).length = (ys.map Prod.snd).length := by
        simpa using congrArg List.length hkeys
      rw [traversePair, if_pos hkeys, pairEntries_eq, Tree.children, Tree.children, sameLength,
        if_pos hlen, pure_bind]
      rfl
    | _ => cases h
  | record m xs =>
    cases y with
    | record n ys =>
      obtain rfl : m = n := Head.record.inj h
      have hlen : xs.length = ys.length := htx.trans hty.symm
      rw [traversePair, if_pos rfl, pairEach_eq, Tree.children, Tree.children, sameLength,
        if_pos hlen, pure_bind]
      rfl
    | _ => cases h
  | foreign a =>
    cases y with
    | foreign b =>
      have hname : a.sameType b = true := by
        simpa [Foreign.sameType] using Head.foreign.inj h
      rw [traversePair, if_pos hname]
      rfl
    | _ => cases h
  | empty =>
    cases y <;> cases h
    rw [traversePair]
    rfl

end Nodes

theorem traversePair_inStep (ht : t.Regular) (hv : TotalPair visit) {x y : Tree ι}
    (hx : x.WellFormed t) (hy : y.WellFormed t) :
    InStep visit (x.outline = y.outline) x.shown y.shown (traversePair t walker visit x y) := by
  induction hx generalizing y with
  | @value v hv' =>
    by_cases hhead : (Tree.value v).head = y.head
    case neg =>
      exact .differ (fun h => hhead (Tree.head_eq_of_outline_eq h)) (traversePair_of_head_ne hhead)
    obtain ⟨w, rfl⟩ : ∃ w, y = .value w := by
      cases y with
      | value w => exact ⟨w, rfl⟩
      | _ => cases hhead
    exact traverseValues_inStep ht hv hv' hy.of_value
  | @node x hx htx _ ih =>
    by_cases hhead : x.head = y.head
    case neg =>
      exact .differ (fun h => hhead (Tree.head_eq_of_outline_eq h)) (traversePair_of_head_ne hhead)
    have hyv : y.value? = none := Tree.value?_eq_none_of_head_eq hhead hx
    obtain ⟨hty, hchildren⟩ := hy.of_node hyv
    have hpairs : ∀ p ∈ x.children.zip y.children,
        InStep visit (p.1.outline = p.2.outline) p.1.shown p.2.shown
          (traversePair t walker visit p.1 p.2) := by
      intro p hp
      exact ih p.1 (List.of_mem_zip hp).1 (hchildren p.2 (List.of_mem_zip hp).2)
    rw [traversePair_of_head_eq hx htx hty hhead, Tree.shown_of_node hx, Tree.shown_of_node hyv]
    refine ((InStep.sameLength hv hpairs).framed hv _).of_iff ?_
    rw [Tree.outline_of_node hx, Tree.outline_of_node hyv, hhead, Outline.node.injEq]
    exact and_iff_right rfl

/-- The walk over two trees gets to its end if and only if their outlines are equal. -/
theorem traversePair_eq_ok_iff (ht : t.Regular) (hv : TotalPair visit) {x y : Tree ι}
    (hx : x.WellFormed t) (hy : y.WellFormed t) (s : σ) :
    ((traversePair t walker visit x y).runFrom s).1 = .ok () ↔ x.outline = y.outline := by
  have hstep : InStep visit _ _ _ (traversePair t walker visit x y) :=
    traversePair_inStep ht hv hx hy
  cases hstep with
  | agree h hlen hw =>
    obtain ⟨s', hs⟩ := hv.exists_passes (x.shown.zip y.shown) s
    refine iff_of_true ?_ h
    rw [hw, hs.runFrom_forM]
  | differ h hw =>
    obtain ⟨e, s', hs⟩ := hw s
    refine iff_of_false (fun hok => ?_) h
    rw [hs] at hok
    cases hok

theorem traverse_noted (ht : t.Regular) {each : Value → Walk σ Unit} (he : Total each) {x : Tree ι}
    (hx : x.WellFormed t) (walker : String) (s : σ) :
    ∃ s', (traverse t walker (noted each) x).runFrom ([], s) = (.ok (), x.shown, s') := by
  obtain ⟨s', hs⟩ := he.exists_passes x.shown s
  exact ⟨s', by rw [traverse_eq ht hx, forM_visited_of_passes (hs.noted []), List.nil_append]⟩

/-- With callbacks that never fail, the trees over which the walk in step gets to its end are those
of one class of an equivalence relation. Over two such trees, it shows the callback what the walks
over the single trees show, pair by pair, and these show equally many leaves. -/
theorem traversePair_equivalence {r : Registry} (hr : r.Built) (ha : r.types.StockAccess)
    (walker : String) {visit : Value → Value → Walk σ Unit} (hv : TotalPair visit)
    {each : Value → Walk σ Unit} (he : Total each) (s : σ) :
    let Succeeds := fun x y : { x : Tree ι // x.WellFormed r.types } =>
      ((traversePair r.types walker visit x.1 y.1).runFrom s).1 = .ok ()
    Equivalence Succeeds ∧ ∀ x y, Succeeds x y → ∃ vs ws s₁ s₂ s₃, vs.length = ws.length ∧
      (traverse r.types walker (noted each) x.1).runFrom ([], s) = (.ok (), vs, s₁) ∧
      (traverse r.types walker (noted each) y.1).runFrom ([], s) = (.ok (), ws, s₂) ∧
      (traversePair r.types walker (notedPair visit) x.1 y.1).runFrom ([], s) =
        (.ok (), vs.zip ws, s₃) := by
  intro Succeeds
  have ht : r.types.Regular := ⟨hr.sound, ha⟩
  have hiff : ∀ x y, Succeeds x y ↔ x.1.outline = y.1.outline := fun x y =>
    traversePair_eq_ok_iff ht hv x.2 y.2 s
  refine ⟨⟨fun x => (hiff x x).mpr rfl, fun hxy => ?_, fun hxy hyz => ?_⟩, fun x y hxy => ?_⟩
  · exact (hiff _ _).mpr ((hiff _ _).mp hxy).symm
  · exact (hiff _ _).mpr (((hiff _ _).mp hxy).trans ((hiff _ _).mp hyz))
  · obtain ⟨s₁, hs₁⟩ := traverse_noted ht he x.2 walker s
    obtain ⟨s₂, hs₂⟩ := traverse_noted ht he y.2 walker s
    obtain ⟨s₃, hs₃⟩ := hv.exists_passes (x.1.shown.zip y.1.shown) s
    have hstep : InStep _ _ _ _ (traversePair r.types walker (notedPair visit) x.1 y.1) :=
      traversePair_inStep ht hv.notedPair x.2 y.2
    cases hstep with
    | differ h _ => exact absurd ((hiff x y).mp hxy) h
    | agree _ hlen hw =>
      refine ⟨_, _, s₁, s₂, s₃, hlen, hs₁, hs₂, ?_⟩
      rw [hw]
      exact (hs₃.noted []).runFrom_forM

/-- Two trees with other rows and other integers, of which the second is empty. -/
theorem traversePair_equivalence_sample :
    let visit : Value → Value → Walk ℕ Unit := fun _ _ n => (.ok (), n + 1)
    let each : Value → Walk ℕ Unit := fun _ n => (.ok (), n + 1)
    let x := Stock.sampleTree [3, 4] [[true], [false, true], []]
    let y := Stock.sampleTree [] [[false], [], [true]]
    let types := Stock.registry.types
    Stock.registry.Built ∧ types.StockAccess ∧ TotalPair visit ∧ Total each ∧
      (traversePair types "zip" visit x y).runFrom 0 = (.ok (), 4) ∧
      ((traversePair types "zip" visit y x).runFrom 0).1 = .ok () ∧
      ∃ vs ws s₁ s₂ s₃, vs.length = ws.length ∧
        (traverse types "zip" (noted each) x).runFrom ([], 0) = (.ok (), vs, s₁) ∧
        (traverse types "zip" (noted each) y).runFrom ([], 0) = (.ok (), ws, s₂) ∧
        (traversePair types "zip" (notedPair visit) x y).runFrom ([], 0) =
          (.ok (), vs.zip ws, s₃) := by
  intro visit each x y types
  have hv : TotalPair visit := fun _ s => ⟨(), s + 1, rfl⟩
  have he : Total each := fun _ s => ⟨(), s + 1, rfl⟩
  have hrun : (traversePair types "zip" visit x y).runFrom 0 = (.ok (), 4) := by decide +kernel
  have hx : x.WellFormed types := Stock.wellFormed_sampleTree _ rfl
  have hy : y.WellFormed types := Stock.wellFormed_sampleTree _ rfl
  obtain ⟨hequiv, hpairs⟩ := traversePair_equivalence (ι := Stock.Tags) Stock.built_registry
    Stock.stockAccess_registry "zip" hv he 0
  have hok : ((traversePair types "zip" visit x y).runFrom 0).1 = .ok () := by rw [hrun]
  exact ⟨Stock.built_registry, Stock.stockAccess_registry, hv, he, hrun,
    hequiv.symm (x := ⟨x, hx⟩) (y := ⟨y, hy⟩) hok, hpairs ⟨x, hx⟩ ⟨y, hy⟩ hok⟩

end ArrayDispatch
