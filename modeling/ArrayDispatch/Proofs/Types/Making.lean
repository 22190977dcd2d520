import ArrayDispatch.Proofs.Types.Conversion
import ArrayDispatch.Proofs.Value.Made

/-!
What conversions make. A converted value refers to what the original refers to, to the original
itself, and to new objects below the site of the conversion.
-/

namespace ArrayDispatch

/-- Component types are in the table as well. -/
def TypeTable.Closed (t : TypeTable) : Prop :=
  ∀ d ∈ t.types, ∀ c, d.component? = some c → c ∈ t.types

namespace TypeTable

variable {t : TypeTable} {d : Descriptor} {site : Site} {roots : List Value} {v : Value}

theorem mem_of_component_resolve {decl : TypeDecl} {key : TypeKey} (h : t.resolve decl key = .ok d)
    {c : Descriptor} (hc : d.component? = some c) : c ∈ t.types := by
  obtain ⟨_, _, hk⟩ := (resolve_eq_ok_iff.mp h).exists_descriptor? hc
  exact List.mem_of_getElem? hk

theorem Closed.register {t' : TypeTable} {decl : TypeDecl} {key : TypeKey} (ht : t.Closed)
    (h : t.register decl = .ok (t', key)) : t'.Closed := by
  obtain ⟨desc, hdesc, htypes, _⟩ := types_register h
  intro d hd c hc
  rw [htypes, List.mem_append, List.mem_singleton] at hd ⊢
  rcases hd with hd | rfl
  · exact .inl (ht d hd c hc)
  · exact .inl (mem_of_component_resolve hdesc hc)

end TypeTable

theorem Registry.Built.closed {r : Registry} (h : r.Built) : r.types.Closed := by
  induction h with
  | empty => exact fun d hd => by cases hd
  | register _ hd ih =>
    obtain ⟨⟨types, key⟩, ht, hd⟩ := bind_eq_ok_iff.mp hd
    cases hd
    exact ih.register ht
  | registerFunction name f _ ih => exact ih
  | withUnifier u _ ih => exact ih

/-! ## New storage -/

namespace TypeTable

variable {t : TypeTable} {d : Descriptor} {site : Site} {roots : List Value} {v : Value}

section NewStorage

variable (hd : d.info.access = .stock) (hp : d.isTensor = false)

include hd hp

end NewStorage

/-! ## Conversions -/

section Convert

variable (ht : t.Closed) (ha : t.StockAccess)

include ht ha

end Convert

end TypeTable

end ArrayDispatch
