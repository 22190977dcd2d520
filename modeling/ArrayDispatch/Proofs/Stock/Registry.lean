import ArrayDispatch.Proofs.Types.Registration
import ArrayDispatch.Stock

/-!
The registry of the stock types arises by registration, and its types have the accessors of the
payload itself.
-/

namespace ArrayDispatch

theorem TypeTable.StockAccess.register {t t' : TypeTable} {decl : TypeDecl} {key : TypeKey}
    (ht : t.StockAccess) (ha : decl.access = .stock) (h : t.register decl = .ok (t', key)) :
    t'.StockAccess := by
  obtain ⟨desc, hd, htypes, _⟩ := types_register h
  intro d hm
  rw [htypes, List.mem_append, List.mem_singleton] at hm
  rcases hm with hm | rfl
  · exact ht d hm
  · rw [info_resolve hd]
    exact ha

namespace Stock

theorem built_registerAll {r r' : Registry} {ds : List TypeDecl} (hr : r.Built)
    (h : registerAll r ds = .ok r') : r'.Built := by
  induction ds generalizing r with
  | nil =>
    cases h
    exact hr
  | cons d ds ih =>
    obtain ⟨s, hs, h⟩ := bind_eq_ok_iff.mp h
    obtain ⟨⟨s, key⟩, hd, rfl⟩ := map_eq_ok_iff.mp hs
    exact ih (hr.register hd) h

theorem stockAccess_registerAll {r r' : Registry} {ds : List TypeDecl}
    (hr : r.types.StockAccess) (ha : ∀ d ∈ ds, d.access = .stock)
    (h : registerAll r ds = .ok r') : r'.types.StockAccess := by
  induction ds generalizing r with
  | nil =>
    cases h
    exact hr
  | cons d ds ih =>
    obtain ⟨s, hs, h⟩ := bind_eq_ok_iff.mp h
    obtain ⟨⟨s, key⟩, hd, rfl⟩ := map_eq_ok_iff.mp hs
    obtain ⟨⟨types, key'⟩, hreg, hd⟩ := bind_eq_ok_iff.mp hd
    cases hd
    exact ih (hr.register (ha d (by simp)) hreg) (fun e he => ha e (List.mem_cons_of_mem _ he)) h

theorem built_registry : registry.Built :=
  built_registerAll .empty registerAll_declarations

theorem stockAccess_registry : registry.types.StockAccess := by
  have hempty : Registry.empty.types.StockAccess := fun _ hd => (by cases hd)
  have hdecls : ∀ d ∈ declarations, d.access = .stock := by
    simp only [declarations, List.forall_mem_cons]
    exact ⟨rfl, rfl, rfl, rfl, rfl, rfl, rfl, rfl, rfl, rfl, rfl, rfl, rfl, rfl,
      List.forall_mem_nil _⟩
  exact stockAccess_registerAll hempty hdecls registerAll_declarations

/-! ## Arrays of integers -/

def integersInfo : TypeInfo :=
  ⟨"Int32X", int32X, some boolX, fun _ => .generic, .none, .stock⟩

def integerArray (site : Site) (xs : List (IntType.Word .int32)) : Value :=
  .array ⟨site, int32X, .flat ⟨.integer .int32, xs⟩⟩

theorem registered_integers :
    registry.types.Registered (.flat integersInfo (.integer .int32) .dynamic) := rfl

theorem isInstance_integerArray (site : Site) (xs : List (IntType.Word .int32)) :
    (Descriptor.flat integersInfo (.integer .int32) .dynamic).IsInstance (integerArray site xs) :=
  ⟨_, rfl, rfl, rfl, trivial⟩

end Stock

end ArrayDispatch
