import ArrayDispatch.Proofs.Value.Store
import Mathlib.Data.List.Forall2
import Mathlib.Data.Set.BooleanAlgebra
import Mathlib.Order.CompletePartialOrder
import Mathlib.Order.Interval.Set.Basic

/-!
Making values. Whatever is made of given values refers to these and to new objects, and the new
objects stand at sites that were free.
-/

namespace ArrayDispatch

/-! ### Regions of sites -/

namespace Site

variable {s id : Site} {I J : Set ℕ} {i : ℕ}

/-- A site with all places into which it divides. -/
def below (s : Site) : Set Site := {id | s.path <:+ id.path}

/-- The sites below some of the places into which a site divides. -/
def children (s : Site) (I : Set ℕ) : Set Site := {id | ∃ i ∈ I, id ∈ (s.child i).below}

theorem self_mem_below (s : Site) : s ∈ s.below := List.suffix_rfl

theorem below_child_subset (s : Site) (i : ℕ) : (s.child i).below ⊆ s.below :=
  fun _ hid => (List.suffix_cons i s.path).trans hid

theorem children_subset_below (s : Site) (I : Set ℕ) : s.children I ⊆ s.below := by
  rintro id ⟨i, _, hid⟩
  exact s.below_child_subset i hid

theorem self_not_mem_children (s : Site) (I : Set ℕ) : s ∉ s.children I := by
  rintro ⟨i, _, hid⟩
  have hlen : s.path.length + 1 ≤ s.path.length := hid.length_le
  omega

end Site

/-! ### Made values -/

/-- The values `ws` are made of `roots`: a store that shows `roots` also shows `ws` once new objects
have been stored at the sites `S`, which must be free. -/
def Made (roots : List Value) (S : Set Site) (ws : List Value) : Prop :=
  ∀ σ : Store, σ.Free S → σ.ShowsAll roots → ∃ τ : Store, τ.AgreesOff σ S ∧ τ.ShowsAll ws

namespace Made

variable {roots roots' ws ws' xs : List Value} {S T : Set Site} {site : Site}

theorem of_among (h : Value.Among ws roots) : Made roots S ws :=
  fun σ _ hroots => ⟨σ, fun _ _ => rfl, hroots.of_among h⟩

theorem mono (h : Made roots S ws) (hroots : Value.Among roots roots') (hS : S ⊆ T)
    (hws : Value.Among ws' ws) : Made roots' T ws' := by
  intro σ hfree hshows
  obtain ⟨τ, hτ, hws'⟩ := h σ (hfree.mono hS) (hshows.of_among hroots)
  exact ⟨τ, hτ.mono hS, hws'.of_among hws⟩

theorem trans (h : Made roots S ws) (h' : Made (roots ++ ws) T xs) (hd : Disjoint S T) :
    Made roots (S ∪ T) (ws ++ xs) := by
  intro σ hfree hshows
  have hfreeS : σ.Free S := hfree.mono Set.subset_union_left
  obtain ⟨τ, hτ, hws⟩ := h σ hfreeS hshows
  have hfreeT : τ.Free T := by
    intro id hid
    rw [hτ id (Set.disjoint_right.mp hd hid)]
    exact hfree id (.inr hid)
  have hroots : τ.ShowsAll roots := hτ.showsAll hfreeS hshows
  obtain ⟨ρ, hρ, hxs⟩ := h' τ hfreeT (Store.showsAll_append.mpr ⟨hroots, hws⟩)
  refine ⟨ρ, fun id hid => ?_, Store.showsAll_append.mpr ⟨hρ.showsAll hfreeT hws, hxs⟩⟩
  rw [Set.mem_union, not_or] at hid
  rw [hρ id hid.2, hτ id hid.1]

theorem keep (h : Made roots S ws) : Made roots S (roots ++ ws) := by
  intro σ hfree hshows
  obtain ⟨τ, hτ, hws⟩ := h σ hfree hshows
  exact ⟨τ, hτ, Store.showsAll_append.mpr ⟨hτ.showsAll hfree hshows, hws⟩⟩

theorem parts (h : Made roots S ws) : Made roots S (ws.flatMap Value.parts) := by
  intro σ hfree hshows
  obtain ⟨τ, hτ, hws⟩ := h σ hfree hshows
  exact ⟨τ, hτ, hws.parts⟩

/-- A new object holds what has been made below its site. -/
theorem array {p : Payload} (h : Made roots S p.parts) (hS : S ⊆ site.children Set.univ)
    (type : TypeKey) : Made roots site.below [.array ⟨site, type, p⟩] := by
  intro σ hfree hshows
  have hsub : S ⊆ site.below := hS.trans (site.children_subset_below _)
  obtain ⟨τ, hτ, hp⟩ := h σ (hfree.mono hsub) hshows
  have hnone : τ site = none := by
    rw [hτ site fun hm => site.self_not_mem_children _ (hS hm)]
    exact hfree site site.self_mem_below
  have hsite : site ∉ Value.idsOf p.parts := fun hm => Store.ne_none_of_showsAll _ hp site hm hnone
  let a : Object := ⟨site, type, p⟩
  refine ⟨τ.set site (some a.entry), fun id hid => ?_, Store.shows_set_entry (a := a) hp hsite,
    trivial⟩
  rw [Store.set_of_ne _ _ (ne_of_mem_of_not_mem site.self_mem_below hid).symm]
  exact hτ id fun hm => hid (hsub hm)

/-- Nothing that is made refers to an object that is neither new nor reached by what it is made
of. -/
theorem not_mem_idsOf (h : Made roots S ws) {σ : Store} (hfree : σ.Free S)
    (hshows : σ.ShowsAll roots) {id : Site} (hS : id ∉ S) (hroots : id ∉ Value.idsOf roots) :
    id ∉ Value.idsOf ws := by
  -- a store without the object still shows `roots`, so `ws` can be made there, too
  obtain ⟨τ, hτ, hws⟩ := h _ (hfree.set hS none) (Store.showsAll_set hshows hroots none)
  intro hm
  exact Store.ne_none_of_showsAll ws hws id hm ((hτ id hS).trans (σ.set_self id none))

/-! ### Sequences -/

/-- One thing is made after the other, and the last one is kept. -/
theorem next {U : Set Site} (h : Made roots S ws) (h' : Made (roots ++ ws) T xs)
    (hd : Disjoint S T) (hU : S ∪ T ⊆ U) : Made roots U xs :=
  (h.trans h' hd).mono (fun _ ha => ha) hU
    (Value.among_of_subset (List.subset_append_right ws xs))

end Made

end ArrayDispatch
