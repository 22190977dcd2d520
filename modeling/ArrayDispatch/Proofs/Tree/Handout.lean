import ArrayDispatch.Proofs.Tree.Transform

/-!
What a transformation gives to its callback. A callback that takes notes does what it would do
without them; the notes show, for some of the leaves in order, the leaf next to a zeroed array of
the type that the callback has named for it.
-/

namespace ArrayDispatch

open Walk

variable {ι σ : Type} [ForeignTypes ι]

/-! ## Callbacks that take notes -/

/-- The two arrays of one call, under the last question about types and its answer. -/
structure Handout where
  asked : TypeKey
  answer : Option TypeKey
  source : Object
  target : Object

/-- The last question about types with its answer, and what has been given so far. -/
structure Notes where
  asked : TypeKey
  answer : Option TypeKey
  given : List Handout

/-- The same callback, which also notes what it is asked and given. -/
def Transformer.noted (f : Transformer σ) : Transformer (Notes × σ) where
  retype key := fun (notes, s) =>
    let (answer, s') := f.retype key s
    (answer, ⟨key, answer, notes.given⟩, s')
  fill site source target := fun (notes, s) =>
    let (r, s') := (f.fill site source target).runFrom s
    let handout : Handout := ⟨notes.asked, notes.answer, source, target⟩
    (r, { notes with given := notes.given ++ [handout] }, s')

/-- What is given for a leaf once its array has been asked about: the leaf, and zeros of the type
that the answer names, in the length of that type or else of the leaf. For a tensor the answer
names a tensor type, and the zeros are of its backing type, as many as the shape of the tensor
holds. -/
inductive Leaf.Given (t : TypeTable) : Leaf ι → Handout → Prop
  | plain {a target : Object} {key : TypeKey} {d : Descriptor} {nodes : List (Tree ι)}
      (ha : a.payload.tensor? = none) (hkey : t.descriptor? key = some d)
      (hz : d.IsZeros (d.extent.fixed?.getD a.length) target) :
    Given t ⟨a, .value (.array a) :: nodes⟩ ⟨a.type, some key, a, target⟩
  | tensor {a source target : Object} {shape : List ℕ} {key : TypeKey} {info : TypeInfo}
      {backing : Descriptor} {nodes : List (Tree ι)} (ha : a.payload = .tensor source shape)
      (hkey : t.descriptor? key = some (.tensor info backing))
      (hz : backing.IsZeros (Shape.size shape) target) :
    Given t ⟨source, .value (.array a) :: nodes⟩ ⟨a.type, some key, source, target⟩

section Given

variable {t : TypeTable} {ls ls' : List (Leaf ι)} {notes notes' notes'' : Notes}

theorem Leaf.Given.inside {l : Leaf ι} {h : Handout} (hl : l.Given t h) (node : Tree ι) :
    (l.inside node).Given t h := by
  cases hl with
  | plain ha hkey hz => exact .plain ha hkey hz
  | tensor ha hkey hz => exact .tensor ha hkey hz

/-- Between the notes something has been given for some of the leaves, in order. -/
def Notes.Grow (t : TypeTable) (ls : List (Leaf ι)) (notes notes' : Notes) : Prop :=
  ∃ given, notes'.given = notes.given ++ given ∧
    ∃ ls', ls'.Sublist ls ∧ List.Forall₂ (Leaf.Given t) ls' given

theorem Notes.Grow.none (h : notes'.given = notes.given) : Notes.Grow t ls notes notes' :=
  ⟨[], h.trans (List.append_nil _).symm, [], List.nil_sublist ls, .nil⟩

theorem Notes.Grow.trans (h : Notes.Grow t ls notes notes') (h' : Notes.Grow t ls' notes' notes'') :
    Notes.Grow t (ls ++ ls') notes notes'' := by
  obtain ⟨given, hgiven, ks, hks, hall⟩ := h
  obtain ⟨given', hgiven', ks', hks', hall'⟩ := h'
  refine ⟨given ++ given', ?_, ks ++ ks', hks.append hks', List.rel_append hall hall'⟩
  rw [hgiven', hgiven, List.append_assoc]

theorem Notes.Grow.inside (h : Notes.Grow t ls notes notes') (node : Tree ι) :
    Notes.Grow t (ls.map (.inside node)) notes notes' := by
  obtain ⟨given, hgiven, ks, hks, hall⟩ := h
  exact ⟨given, hgiven, ks.map (.inside node), hks.map _,
    List.forall₂_map_left_iff.mpr (hall.imp fun _ _ hl => hl.inside node)⟩

end Given

/-! ## Walks that take notes -/

namespace Walk

variable {α β : Type} {t : TypeTable} {f : Transformer σ} {ls ls' : List (Leaf ι)} {notes : Notes}
  {w : Walk σ α} {w' : Walk (Notes × σ) α}

/-- The second walk does what the first one does and takes notes, from the given ones on. -/
def HandsOut (t : TypeTable) (notes : Notes) (ls : List (Leaf ι)) (w : Walk σ α)
    (w' : Walk (Notes × σ) α) : Prop :=
  ∀ s, ∃ notes', w'.runFrom (notes, s) = ((w.runFrom s).1, notes', (w.runFrom s).2) ∧
    notes.Grow t ls notes'

theorem HandsOut.still (r : Dispatched α) :
    HandsOut t notes ls (liftM r : Walk σ α) (liftM r) := by
  intro s
  cases r <;> exact ⟨notes, rfl, .none rfl⟩

theorem HandsOut.pure (a : α) : HandsOut t notes ls (pure a : Walk σ α) (pure a) :=
  .still (.ok a)

theorem HandsOut.bind {k : α → Walk σ β} {k' : α → Walk (Notes × σ) β}
    (h : HandsOut t notes ls w w') (hk : ∀ notes a, HandsOut t notes ls' (k a) (k' a)) :
    HandsOut t notes (ls ++ ls') (w >>= k) (w' >>= k') := by
  intro s
  obtain ⟨notes', hrun, hgrow⟩ := h s
  rcases hw : w.runFrom s with ⟨e | a, s'⟩
  · rw [hw] at hrun
    refine ⟨notes', ?_, hgrow.trans (.none rfl)⟩
    rw [runFrom_bind_of_error hrun, runFrom_bind_of_error hw]
  · rw [hw] at hrun
    obtain ⟨notes'', hrun', hgrow'⟩ := hk notes' a s'
    refine ⟨notes'', ?_, hgrow.trans hgrow'⟩
    rw [runFrom_bind_of_ok hrun, runFrom_bind_of_ok hw, hrun']

theorem HandsOut.map (h : HandsOut t notes ls w w') (g : α → β) :
    HandsOut t notes ls (g <$> w) (g <$> w') := by
  rw [map_eq_pure_bind, map_eq_pure_bind, ← List.append_nil ls]
  exact h.bind fun _ a => .pure (g a)

theorem HandsOut.framed (h : HandsOut t notes ls w w') (fr : Frame) :
    HandsOut t notes ls (framed fr w) (framed fr w') := by
  intro s
  obtain ⟨notes', hrun, hgrow⟩ := h s
  refine ⟨notes', ?_, hgrow⟩
  rw [runFrom_framed, runFrom_framed, hrun]

theorem HandsOut.inside (h : HandsOut t notes ls w w') (node : Tree ι) :
    HandsOut t notes (ls.map (.inside node)) w w' := by
  intro s
  obtain ⟨notes', hrun, hgrow⟩ := h s
  exact ⟨notes', hrun, hgrow.inside node⟩

/-- After a question the notes end with the answer to it. -/
theorem HandsOut.ask {key : TypeKey} {k : Option TypeKey → Walk σ β}
    {k' : Option TypeKey → Walk (Notes × σ) β}
    (h : ∀ answer, HandsOut t ⟨key, answer, notes.given⟩ ls (k answer) (k' answer)) :
    HandsOut t notes ls (liftM (f.retype key) >>= k) (liftM (f.noted.retype key) >>= k') := by
  intro s
  rcases hask : f.retype key s with ⟨answer, s'⟩
  have hrun : (liftM (f.retype key) : Walk σ _).runFrom s = (.ok answer, s') := by
    change ((.ok (f.retype key s).1, (f.retype key s).2) : Dispatched _ × σ) = _
    rw [hask]
  have hnoted : (liftM (f.noted.retype key) : Walk (Notes × σ) _).runFrom (notes, s) =
      (.ok answer, ⟨key, answer, notes.given⟩, s') := by
    change ((.ok (f.retype key s).1, ⟨key, (f.retype key s).1, notes.given⟩, (f.retype key s).2) :
      Dispatched _ × Notes × σ) = _
    rw [hask]
  obtain ⟨notes', hrest, hgrow⟩ := h answer s'
  refine ⟨notes', ?_, hgrow⟩
  rw [runFrom_bind_of_ok hnoted, runFrom_bind_of_ok hrun, hrest]

theorem HandsOut.fill {l : Leaf ι} {source target : Object}
    (h : l.Given t ⟨notes.asked, notes.answer, source, target⟩) (site : Site) :
    HandsOut t notes [l] (f.fill site source target) (f.noted.fill site source target) :=
  fun _ => ⟨_, rfl, [_], rfl, [l], List.Sublist.refl _, .cons h .nil⟩

end Walk

/-! ## Values -/

section Values

variable {t : TypeTable} {f : Transformer σ} {ls : List (Leaf ι)} {notes : Notes} {walker : String}
  {site : Site} {a : Object} {d : Descriptor} {transformItem : ℕ → Value → Walk σ (Tree ι)}
  {transformItem' : ℕ → Value → Walk (Notes × σ) (Tree ι)}

theorem handsOut_storeNode (target : Descriptor) (p : Payload) (k : ℕ) (node : Tree ι) :
    HandsOut t notes ls (storeNode t target p k node : Walk σ Payload)
      (storeNode t target p k node) := by
  cases node <;> exact .still _

theorem handsOut_transformItems (ht : t.Regular) {info : TypeInfo} {element : Descriptor}
    {extent : Extent} (hd : t.Registered (.nested info element extent)) {xs : List Value}
    (hp : a.payload = .nested xs) (target : Descriptor) (p : Payload)
    (hitem : ∀ i x, xs[i]? = some x →
      ∀ notes, HandsOut t notes (x.leaves : List (Leaf ι)) (transformItem i x)
        (transformItem' i x)) :
    HandsOut t notes (xs.flatMap Value.leaves : List (Leaf ι))
      (transformItems t (.nested info element extent) target a xs.length p transformItem)
      (transformItems t (.nested info element extent) target a xs.length p transformItem') := by
  have hprefix : ∀ k ≤ xs.length,
      HandsOut t notes ((xs.take k).flatMap Value.leaves : List (Leaf ι))
        (transformItems t (.nested info element extent) target a k p transformItem)
        (transformItems t (.nested info element extent) target a k p transformItem') := by
    intro k
    induction k with
    | zero => exact fun _ => .pure p
    | succ k ih =>
      intro hk
      obtain ⟨x, hx⟩ : ∃ x, xs[k]? = some x := ⟨xs[k], List.getElem?_eq_getElem hk⟩
      rw [transformItems_succ, transformItems_succ, List.take_add_one, hx, List.flatMap_append]
      refine (ih (Nat.le_of_succ_le hk)).bind fun notes q => ?_
      rw [itemAt_of_nested ht hd hp hx, itemAt_of_nested ht hd hp hx, pure_bind, pure_bind,
        Option.toList_some, List.flatMap_singleton, ← List.append_nil x.leaves]
      exact (hitem k x hx notes).bind fun notes node => handsOut_storeNode target q k node
  have hall := hprefix xs.length le_rfl
  rw [List.take_length] at hall
  exact hall

/-- An array gives what its rebuilding as one of the type named gives, for whatever type that is. -/
theorem handsOut_array (hd : t.Registered d) (ha : a.type = d.key)
    (h : ∀ depth key target, t.descriptor? key = some target →
      HandsOut t ⟨a.type, some key, notes.given⟩ ls
        (transformArray t f d target site a fun i =>
          transformValue (ι := ι) t walker f depth ((site.child 1).child i))
        (transformArray t f.noted d target site a fun i =>
          transformValue (ι := ι) t walker f.noted depth ((site.child 1).child i)))
    (depth : ℕ) :
    HandsOut t notes ls (transformValue (ι := ι) t walker f depth site (.array a))
      (transformValue t walker f.noted depth site (.array a)) := by
  cases depth with
  | zero => exact .still _
  | succ depth =>
    rw [transformValue_array f hd ha, transformValue_array f.noted hd ha, ← ha]
    refine .framed (.ask fun answer => ?_) _
    cases answer with
    | none => exact .pure Tree.empty
    | some key =>
      rw [transformAs, transformAs]
      cases hkey : t.descriptor key with
      | error c => exact .still (.error (.ofCause c))
      | ok target =>
        rw [ofAttempt_ok, ofAttempt_ok, pure_bind, pure_bind, bind_pure_comp, bind_pure_comp]
        exact (h depth key target (TypeTable.descriptor_eq_ok_iff.mp hkey)).map _

section Leaves

variable {key : TypeKey} {target : Descriptor} {info : TypeInfo} {given : List Handout}
  (he : ∀ d ∈ t.types, d.Elastic) (hkey : t.descriptor? key = some target)

include he hkey

theorem handsOut_flat {kind : Kind} {extent : Extent} {b : Buffer} (hp : a.payload = .flat b)
    (hn : (Descriptor.flat info kind extent).lengthOf a.payload = a.length) :
    HandsOut t ⟨a.type, some key, given⟩ ([⟨a, [.value (.array a)]⟩] : List (Leaf ι))
      (transformArray t f (.flat info kind extent) target site a transformItem)
      (transformArray t f.noted (.flat info kind extent) target site a transformItem') := by
  have hz := (he target (List.mem_of_getElem? hkey)).isZeros_zeroed (site.child 0) a.length
  have hplain : a.payload.tensor? = none := by rw [hp]; rfl
  rw [transformArray_of_flat, transformArray_of_flat, hn]
  exact HandsOut.fill (.plain hplain hkey hz) (site.child 2)

theorem handsOut_tensor {backing : Descriptor} {b : Object} {shape : List ℕ}
    (hp : a.payload = .tensor b shape) :
    HandsOut t ⟨a.type, some key, given⟩ ([⟨b, [.value (.array a)]⟩] : List (Leaf ι))
      (transformArray t f (.tensor info backing) target site a transformItem)
      (transformArray t f.noted (.tensor info backing) target site a transformItem') := by
  rw [transformArray_of_tensor f backing hp, transformArray_of_tensor f.noted backing hp]
  cases hmade : target.allocBacking (site.child 0) shape with
  | error c => exact .still (.error (.ofCause c))
  | ok made =>
    obtain ⟨info', backing', rfl, hz⟩ :=
      (he target (List.mem_of_getElem? hkey)).isZeros_allocBacking hmade
    rw [ofAttempt_ok, ofAttempt_ok, pure_bind, pure_bind, bind_pure_comp, bind_pure_comp]
    exact (HandsOut.fill (.tensor hp hkey hz) (site.child 2)).map _

end Leaves

theorem handsOut_transformValue (ht : t.Regular) (he : ∀ d ∈ t.types, d.Elastic)
    (hd : t.Registered d) {v : Value} (hi : d.IsInstance v) (depth : ℕ) (site : Site)
    (notes : Notes) :
    HandsOut t notes (v.leaves : List (Leaf ι)) (transformValue (ι := ι) t walker f depth site v)
      (transformValue t walker f.noted depth site v) := by
  induction d generalizing v depth site notes with
  | flat info kind extent =>
    obtain ⟨a, rfl, ha, hholds⟩ := id hi
    obtain ⟨b, hp⟩ := hi.exists_flat
    have hn := Descriptor.lengthOf_of_holds (ht.access_of_registered hd) hholds
    rw [Value.leaves_of_flat hp]
    exact handsOut_array hd ha (fun _ key target hkey => handsOut_flat he hkey hp hn) depth
  | nested info element extent ih =>
    obtain ⟨a, rfl, ha, _⟩ := id hi
    obtain ⟨xs, hp, hxs, hn⟩ := hi.exists_nested
    rw [Value.leaves_of_nested hp]
    refine .inside (handsOut_array hd ha (fun depth key target hkey => ?_) depth) _
    rw [transformArray_of_nested, transformArray_of_nested,
      Descriptor.lengthOf_of_nested ht hd hp hn]
    refine (handsOut_transformItems ht hd hp target _ fun i x hx notes => ?_).map _
    exact ih (ht.registered_component hd rfl) (hxs x (List.mem_of_getElem? hx)) depth _ notes
  | tensor info backing ih =>
    obtain ⟨a, rfl, ha, _⟩ := id hi
    obtain ⟨b, shape, hp, _⟩ := hi.exists_tensor
    rw [Value.leaves_of_tensor hp]
    exact handsOut_array hd ha (fun _ key target hkey => handsOut_tensor he hkey hp) depth

end Values

/-! ## Trees -/

section Trees

variable {t : TypeTable} {f : Transformer σ} {notes : Notes} {walker : String}

theorem handsOut_transformAll {xs : List (Tree ι)}
    (h : ∀ x ∈ xs, ∀ site notes, HandsOut t notes x.leaves (transform t walker f site x)
      (transform t walker f.noted site x)) (site : Site) (i : ℕ) (notes : Notes) :
    HandsOut t notes (xs.flatMap Tree.leaves) (transformAll t walker f site i xs)
      (transformAll t walker f.noted site i xs) := by
  induction xs generalizing i notes with
  | nil => exact .pure []
  | cons x xs ih =>
    rw [transformAll, transformAll, List.flatMap_cons]
    refine (h x List.mem_cons_self (site.child i) notes).bind fun notes y => ?_
    rw [bind_pure_comp, bind_pure_comp]
    exact (ih (fun z hz => h z (List.mem_cons_of_mem x hz)) (i + 1) notes).map (y :: ·)

theorem handsOut_transform (ht : t.Regular) (he : ∀ d ∈ t.types, d.Elastic) {x : Tree ι}
    (hx : x.WellFormed t) (site : Site) (notes : Notes) :
    HandsOut t notes x.leaves (transform t walker f site x)
      (transform t walker f.noted site x) := by
  induction hx generalizing site notes with
  | @value v h =>
    rw [transform, transform]
    cases v with
    | scalar s => exact .framed (.pure (Tree.value (.scalar s))) _
    | array a =>
      obtain ⟨d, hd, hi⟩ := h.exists_isInstance
      exact handsOut_transformValue ht he hd hi _ site notes
  | @node x hxv _ _ ih =>
    rw [transform_of_node f hxv, transform_of_node f.noted hxv, Tree.leaves_of_node hxv,
      bind_pure_comp, bind_pure_comp]
    exact (((handsOut_transformAll ih site 0 notes).map _).inside x).framed _

end Trees

/-- A transformation gives to its callback some of the leaves that the walk over the tree visits,
each at most once and in that order, whatever types the callback names and whether or not the
transformation succeeds. Next to a leaf stands a zeroed array: an instance of the type that the
callback has named for the array of the leaf, in the fixed extent of that type or else in the length
of the leaf. For a tensor the leaf is its backing array, and the zeros are an instance of the
backing type of the tensor type named, as many as the shape of the tensor holds. The notes are those
of a callback that otherwise does what it would do without them. -/
theorem transform_hands_zeros {r : Registry} (hr : r.Built) (ha : r.types.StockAccess) {x : Tree ι}
    (hx : x.WellFormed r.types) (walker : String) (f : Transformer σ) (site : Site) (notes : Notes)
    (s : σ) {τ : Type} {visit : Value → Walk τ Unit} (hv : Total visit) (u : τ) :
    let done := (transform r.types walker f site x).runFrom s
    ∃ notes' given, (transform r.types walker f.noted site x).runFrom (notes, s) =
        (done.1, notes', done.2) ∧
      notes'.given = notes.given ++ given ∧
      ∃ ls, ls.Sublist x.leaves ∧ List.Forall₂ (Leaf.Given r.types) ls given ∧
        ∃ u', (traverse r.types walker (noted visit) x).runFrom ([], u) =
          (.ok (), x.leaves.map Leaf.value, u') := by
  have ht : r.types.Regular := ⟨hr.sound, ha⟩
  have hhands : HandsOut r.types notes x.leaves (transform r.types walker f site x)
      (transform r.types walker f.noted site x) :=
    handsOut_transform ht hr.elastic hx site notes
  obtain ⟨notes', hrun, given, hgiven, ls, hls, hall⟩ := hhands s
  obtain ⟨u', hu⟩ := hv.exists_passes (x.leaves.map Leaf.value) u
  refine ⟨notes', given, hrun, hgiven, ls, hls, hall, u', ?_⟩
  rw [traverse_eq ht hx, forM_visited_of_passes (hu.noted []), List.nil_append]

/-- Turns integers into rows of floats, and booleans into integers at first and into tensors later.
The zeros are kept as they are, three times at most. -/
def Transformer.remapping : Transformer ℕ where
  retype key := fun n =>
    let answer :=
      if key = Stock.int32X then Stock.array3fX
      else if key = Stock.boolX then if n = 0 then Stock.int32X else Stock.tensorXi
      else key
    (some answer, n)
  fill _ _ target := fun n =>
    if n < 3 then (.ok target, n + 1)
    else (.error (.ofCause (.kernel (.refused "no more"))), n)

/-- The rows go to integers and to tensors of their own length, and a single integer goes to rows of
fixed extent, where the transformation fails. -/
theorem transform_hands_zeros_remapped :
    let x := Stock.sampleTree [3] [[true], [false, true], []]
    let count : Value → Walk ℕ Unit := fun _ n => (.ok (), n + 1)
    Stock.registry.Built ∧ Stock.registry.types.StockAccess ∧ x.WellFormed Stock.registry.types ∧
      Total count ∧
      ∃ e notes,
        (transform Stock.registry.types "remap" .remapping ⟨[2]⟩ x).runFrom 0 = (.error e, 3) ∧
        (transform Stock.registry.types "remap" Transformer.remapping.noted ⟨[2]⟩ x).runFrom
          (⟨Stock.boolX, none, []⟩, 0) = (.error e, notes, 3) ∧
        notes.given.map (fun h => (h.answer, h.source.length, h.target.length)) =
          [(some Stock.int32X, 1, 1), (some Stock.tensorXi, 2, 2), (some Stock.tensorXi, 0, 0),
            (some Stock.array3fX, 1, 3)] ∧
        ∃ ls, ls.Sublist x.leaves ∧
          List.Forall₂ (Leaf.Given Stock.registry.types) ls notes.given ∧
          ∃ u, (traverse Stock.registry.types "remap" (noted count) x).runFrom ([], 0) =
            (.ok (), x.leaves.map Leaf.value, u) := by
  intro x count
  have hx : x.WellFormed Stock.registry.types := Stock.wellFormed_sampleTree _ rfl
  have hv : Total count := fun _ n => ⟨(), n + 1, rfl⟩
  obtain ⟨notes, given, hrun, hgiven, hleaves⟩ := transform_hands_zeros Stock.built_registry
    Stock.stockAccess_registry hx "remap" .remapping ⟨[2]⟩ ⟨Stock.boolX, none, []⟩ 0 hv 0
  have hfails :
      ((transform Stock.registry.types "remap" .remapping ⟨[2]⟩ x).runFrom 0).1.isOk = false := by
    decide +kernel
  have hcount :
      ((transform Stock.registry.types "remap" .remapping ⟨[2]⟩ x).runFrom 0).2 = 3 := by
    decide +kernel
  have hlengths :
      ((transform Stock.registry.types "remap" Transformer.remapping.noted ⟨[2]⟩ x).runFrom
        (⟨Stock.boolX, none, []⟩, 0)).2.1.given.map
          (fun h => (h.answer, h.source.length, h.target.length)) =
        [(some Stock.int32X, 1, 1), (some Stock.tensorXi, 2, 2), (some Stock.tensorXi, 0, 0),
          (some Stock.array3fX, 1, 3)] := by
    decide +kernel
  rw [hrun] at hlengths
  rcases hdone : (transform Stock.registry.types "remap" .remapping ⟨[2]⟩ x).runFrom 0 with
    ⟨e | y, n⟩
  · rw [hdone] at hrun hcount
    obtain rfl : n = 3 := hcount
    obtain rfl : notes.given = given := hgiven
    exact ⟨Stock.built_registry, Stock.stockAccess_registry, hx, hv, e, notes, rfl, hrun, hlengths,
      hleaves⟩
  · rw [hdone] at hfails
    cases hfails

end ArrayDispatch
