import ArrayDispatch.Proofs.Stock.Ownership

/-!
The frame of calls in place. A call changes one object at most, that of operand 0, and only if no
handle outside of its operands refers to it; everything else that it stores is new.
-/

namespace ArrayDispatch

/-- A store that a call at a site starts from: it shows the operands and the handles held elsewhere,
and the site is free. -/
structure Store.Supports (σ : Store) (held : List Value) (site : Site) (vs : List Value) :
    Prop where
  free : σ.Free site.below
  held : σ.ShowsAll held
  operands : σ.ShowsAll vs

section Moved

variable {vs : List Value} {a new : Object} {k : ℕ}

end Moved

/-! ## What operands refer to after unification -/

section Unconverted

variable {r : Registry} {c : Call} {held us vs ws own : List Value} {site : Site} {σ : Store}
  {a b : Object} {id : Site}

section Unified

variable (ht : r.types.Closed) (haccess : r.types.StockAccess) (hu : r.unifier = .promote)

include ht haccess hu

section Movable

variable (hc : c.mode ≠ .select) (hσ : σ.Supports held site vs)
  (hus : r.unified c site vs = .ok us) (hmovable : c.movable? us vs = some a)
  (hmade : Made (held ++ (us ++ vs).flatMap Value.parts) (site.children {1}ᶜ) ws)

include hc hσ hus hmovable hmade

end Movable

end Unified

end Unconverted

/-! ## The frame -/

section Framed

variable {r : Registry} {c : Call} {held us vs : List Value} {site : Site} {σ : Store}
  {o : Outcome}

theorem Store.Supports.shows (hσ : σ.Supports held site vs) : σ.ShowsAll (held ++ vs) :=
  Store.showsAll_append.mpr ⟨hσ.held, hσ.operands⟩

section Moved

variable {a new : Object} (hσ : σ.Supports held site vs)
  (hmade : Made (held ++ vs) (site.children Set.univ) new.payload.parts)

include hσ hmade

end Moved

section Ends

variable (ht : r.types.Closed) (haccess : r.types.StockAccess)
  (hu : r.unifier = .promote) (hc : c.mode = .inPlace) (hσ : σ.Supports held site vs)
  (hus : r.unified c site vs = .ok us)
  (hends : o.Ends (held ++ (us ++ vs).flatMap Value.parts) held us vs site (c.movable? us vs))

include ht haccess hu hc hσ hus hends

end Ends

/-! ## Calls -/

end Framed

end ArrayDispatch
