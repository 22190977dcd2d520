import ArrayDispatch.Proofs.Types.Order

/-!
Registration call after call, of which any may fail. Types and their names are kept in two tables
that are updated one after the other; main statement: after any calls both tables agree with the
registry, which is well-ordered, and a call that fails has changed neither.
-/

namespace ArrayDispatch

/-- Types in order of their keys, and beside them the keys under their names. -/
structure Catalogue where
  types : List Descriptor
  names : List (String × TypeKey)

namespace Catalogue

/-- An update that may fail, and keeps what it has changed until then. -/
abbrev Update := ExceptT Cause (StateM Catalogue)

/-- The registry's types, when they are looked up in a catalogue. -/
def table (c : Catalogue) : TypeTable := ⟨c.types⟩

/-- Registration with an update of its own for each table. -/
def register (d : TypeDecl) : Update TypeKey := do
  let c ← get
  if (c.names.lookup d.name).isSome then throw (.type (.registered d.name))
  let key := TypeKey.ofIndex c.types.length
  let desc ← liftM (c.table.resolve d key)
  liftM (c.table.checkMask d.mask)
  modify fun c => { c with names := (d.name, key) :: c.names }
  modify fun c => { c with types := c.types ++ [desc] }
  pure key

/-- What a call gives, and the catalogue that it leaves. -/
def call (c : Catalogue) (d : TypeDecl) : Attempt TypeKey × Catalogue := (register d).run.run c

/-- The catalogue that calls lead to from the empty one, whether they fail or not. -/
def after (decls : List TypeDecl) : Catalogue := decls.foldl (fun c d => (c.call d).2) ⟨[], []⟩

/-- A catalogue has the types of a table, each under its name. -/
structure Lists (c : Catalogue) (t : TypeTable) : Prop where
  types_eq : c.types = t.types
  lookup_names : ∀ name, c.names.lookup name = t.key? name

end Catalogue

namespace Registry

/-- The registry that a call leaves, whether it fails or not. -/
def attempt (r : Registry) (d : TypeDecl) : Registry :=
  match r.register d with
  | .ok (r', _) => r'
  | .error _ => r

/-- The registry that calls lead to from the one without types. -/
def after (decls : List TypeDecl) : Registry := decls.foldl attempt .empty

theorem Built.attempt {r : Registry} (h : r.Built) (d : TypeDecl) : (r.attempt d).Built := by
  unfold Registry.attempt
  split
  · rename_i hd
    exact h.register hd
  · exact h

theorem built_after (decls : List TypeDecl) : (after decls).Built := by
  have hrun : ∀ r : Registry, r.Built → (decls.foldl attempt r).Built := by
    induction decls with
    | nil => exact fun r hr => hr
    | cons d decls ih => exact fun r hr => ih (r.attempt d) (hr.attempt d)
  exact hrun .empty .empty

theorem register_eq_ok_iff {r r' : Registry} {d : TypeDecl} {key : TypeKey} :
    r.register d = .ok (r', key) ↔
      ∃ t, r.types.register d = .ok (t, key) ∧ r' = { r with types := t } := by
  rw [register, bind_eq_ok_iff]
  constructor
  · rintro ⟨⟨t, k⟩, ht, h⟩
    cases h
    exact ⟨t, ht, rfl⟩
  · rintro ⟨t, ht, rfl⟩
    exact ⟨(t, key), ht, rfl⟩

theorem register_eq_error_iff {r : Registry} {d : TypeDecl} {cause : Cause} :
    r.register d = .error cause ↔ r.types.register d = .error cause := by
  rw [register]
  cases r.types.register d <;> simp [bind, Except.bind, pure, Except.pure]

end Registry

namespace Catalogue

/-! ## One call -/

section Update

variable {α β : Type}

theorem run_bind (x : Update α) (k : α → Update β) (c : Catalogue) :
    (x >>= k).run.run c = match x.run.run c with
      | (.ok a, c') => (k a).run.run c'
      | (.error cause, c') => (.error cause, c') := by
  change (StateT.bind x (ExceptT.bindCont k)) c = _
  unfold StateT.bind
  rcases hx : x c with ⟨cause | a, c'⟩ <;> simp only [ExceptT.run, StateT.run, hx] <;> rfl

theorem run_liftM (x : Attempt α) (c : Catalogue) :
    (liftM x : Update α).run.run c = (x, c) := by
  cases x <;> rfl

theorem run_get (c : Catalogue) : (get : Update Catalogue).run.run c = (.ok c, c) := rfl

end Update

section Call

variable {c : Catalogue} {t : TypeTable}

/-- A call does to the catalogue what registration does to the table, and nothing if it fails. -/
theorem Lists.call_eq (hl : c.Lists t) (d : TypeDecl) :
    c.call d = match t.register d with
      | .ok (t', key) => (.ok key, ⟨t'.types, (d.name, key) :: c.names⟩)
      | .error cause => (.error cause, c) := by
  have htable : c.table = t := by rw [table, hl.types_eq]
  unfold call register TypeTable.register
  simp only [run_bind, run_get, hl.lookup_names, hl.types_eq, htable]
  by_cases hkey : (t.key? d.name).isSome
  · rw [if_pos hkey, if_pos hkey]
    rfl
  · rw [if_neg hkey, if_neg hkey, run_bind, run_liftM]
    cases hdesc : t.resolve d (.ofIndex t.types.length) with
    | error cause => rfl
    | ok desc =>
      dsimp only
      rw [run_bind, run_liftM]
      cases hmask : t.checkMask d.mask with
      | error cause => rfl
      | ok _ =>
        change (_, Catalogue.mk (c.types ++ [desc]) _) = _
        rw [hl.types_eq]
        rfl

theorem Lists.call (hl : c.Lists t) {d : TypeDecl} {t' : TypeTable} {key : TypeKey}
    (h : t.register d = .ok (t', key)) :
    Lists ⟨t'.types, (d.name, key) :: c.names⟩ t' := by
  obtain ⟨hname, _, rfl, desc, hdesc, rfl⟩ := TypeTable.register_eq_ok_iff.mp h
  refine ⟨rfl, fun name => ?_⟩
  have hinfo := hdesc.info_eq
  rw [TypeTable.key?_concat, List.lookup_cons, hl.lookup_names, Descriptor.name, Descriptor.key,
    hinfo]
  by_cases hn : name = d.name
  · subst hn
    simp [hname, TypeDecl.info]
  · have hn' : d.name ≠ name := Ne.symm hn
    simp [beq_eq_false_iff_ne.mpr hn, hn', TypeDecl.info]

theorem Lists.attempt {r : Registry} (hl : c.Lists r.types) (d : TypeDecl) :
    (c.call d).2.Lists (r.attempt d).types := by
  rw [hl.call_eq, Registry.attempt]
  cases h : r.types.register d with
  | error cause =>
    rw [Registry.register_eq_error_iff.mpr h]
    exact hl
  | ok out =>
    obtain ⟨t', key⟩ := out
    rw [Registry.register_eq_ok_iff.mpr ⟨t', h, rfl⟩]
    exact hl.call h

end Call

/-! ## Call after call -/

theorem lists_after (decls : List TypeDecl) :
    (after decls).Lists (Registry.after decls).types := by
  have hrun : ∀ (c : Catalogue) (r : Registry), c.Lists r.types →
      (decls.foldl (fun c d => (c.call d).2) c).Lists (decls.foldl Registry.attempt r).types := by
    induction decls with
    | nil => exact fun c r hl => hl
    | cons d decls ih => exact fun c r hl => ih _ _ (hl.attempt d)
  exact hrun ⟨[], []⟩ .empty ⟨rfl, fun name => rfl⟩

end Catalogue

/-- After any calls, failing or not, keys and names of types are in order, and nothing that follows
their layouts goes on forever. A further call fails only for a declaration that does not fit, and
changes nothing then. -/
theorem registration_wellOrdered (decls : List TypeDecl)
    (hn : (Registry.after decls).types.types.length ≤ 0x100000000) :
    let r := Registry.after decls
    let c := Catalogue.after decls
    r.types.WellOrdered ∧ c.Lists r.types ∧ ∀ d,
      ((∃ out, r.register d = .ok out) ↔ r.types.Accepts d) ∧
      (∀ cause, r.register d = .error cause → c.call d = (.error cause, c)) ∧
      ∀ r' key, r.register d = .ok (r', key) →
        (∃ c', c.call d = (.ok key, c') ∧ c'.Lists r'.types) ∧
        ∃ desc, r'.types.types = r.types.types ++ [desc] ∧ TypeTable.Declares d key desc := by
  intro r c
  have hbuilt : r.Built := Registry.built_after decls
  have hl : c.Lists r.types := Catalogue.lists_after decls
  refine ⟨hbuilt.ordered.wellOrdered hn hbuilt.sound, hl, fun d => ⟨?_, ?_, ?_⟩⟩
  · rw [← TypeTable.exists_register_iff]
    constructor
    · rintro ⟨⟨r', key⟩, h⟩
      obtain ⟨t', ht, _⟩ := Registry.register_eq_ok_iff.mp h
      exact ⟨_, ht⟩
    · rintro ⟨⟨t', key⟩, ht⟩
      exact ⟨_, Registry.register_eq_ok_iff.mpr ⟨t', ht, rfl⟩⟩
  · intro cause h
    rw [hl.call_eq, Registry.register_eq_error_iff.mp h]
  · intro r' key h
    obtain ⟨t', ht, rfl⟩ := Registry.register_eq_ok_iff.mp h
    refine ⟨⟨_, by rw [hl.call_eq, ht], hl.call ht⟩, ?_⟩
    obtain ⟨_, _, _, desc, hdesc, rfl⟩ := TypeTable.register_eq_ok_iff.mp ht
    exact ⟨desc, rfl, hdesc.declares fun k e hk => hbuilt.ordered.key_eq_of_getElem? hn hk⟩

/-- Two of five calls fail: a name is taken, and a tensor is no backing array. -/
theorem registration_wellOrdered_grid :
    let decls : List TypeDecl :=
      [.flat "cell" .bool .dynamic, .flat "cell" (.integer .int32) .dynamic,
        (TypeDecl.nested "row" ⟨0⟩ .dynamic).withMask ⟨0⟩, .tensor "grid" ⟨1⟩, .tensor "stack" ⟨2⟩]
    let r := Registry.after decls
    r.types.types.length ≤ 0x100000000 ∧ r.types.types.length = 3 ∧ r.types.WellOrdered ∧
      r.types.key? "grid" = some ⟨2⟩ ∧ r.types.LeadsTo ⟨2⟩ .bool := by
  intro decls r
  have hlen : r.types.types.length = 3 := by decide
  have hn : r.types.types.length ≤ 0x100000000 := by omega
  obtain ⟨hr, _, _⟩ := registration_wellOrdered decls hn
  obtain ⟨d, hd, hname, hkey, hkind⟩ : ∃ d : Descriptor, r.types.descriptor? ⟨2⟩ = some d ∧
      d.name = "grid" ∧ d.key = ⟨2⟩ ∧ Kind.bool = d.leafKind := ⟨_, rfl, rfl, rfl, rfl⟩
  refine ⟨hn, hlen, hr, (hr.key?_eq_some_iff _ _).mpr ⟨d, hd, hname⟩, ?_⟩
  rw [← hkey]
  exact (hr.leadsTo_iff d (List.mem_of_getElem? hd) .bool).mpr hkind

end ArrayDispatch
