import ArrayDispatch.Proofs.Dispatch.Unification
import ArrayDispatch.Proofs.Stock.Registry
import ArrayDispatch.Proofs.Types.Order
import Mathlib.Data.Prod.Lex

/-!
The type that operands are promoted to, and what promotion makes of them. The type is that of the
earliest array of highest rank, and once all operands have the types that are required of them,
promotion leaves them alone.
-/

namespace ArrayDispatch

namespace Descriptor

/-- Rank of a type among those that operands are promoted to, compared from left to right. -/
def rank (d : Descriptor) : Bool ×ₗ Nat ×ₗ Nat :=
  toLex (d.isTensor, toLex (d.ndim, d.leafKind.rank))

theorem outranks_iff {d e : Descriptor} : d.outranks e = true ↔ e.rank < d.rank := by
  unfold outranks rank
  rw [Prod.Lex.toLex_lt_toLex, Prod.Lex.toLex_lt_toLex]
  cases d.isTensor <;> cases e.isTensor <;> simp <;> split <;> omega

/-- The type that is required of the operand at position `i`. -/
def required (d : Descriptor) (mode : Mode) (i : Nat) : TypeKey :=
  if i < mode.representative then d.maskType else d.key

end Descriptor

namespace TypeTable

variable {t : TypeTable} {d e : Descriptor} {vs ws : List Value}

/-! ## The highest type -/

/-- All arrays in a list have registered types, none of higher rank than `d`. -/
def AtMost (t : TypeTable) (vs : List Value) (d : Descriptor) : Prop :=
  ∀ a, .array a ∈ vs → ∃ e, t.descriptor a.type = .ok e ∧ e.rank ≤ d.rank

/-- All arrays in a list have registered types of lower rank than `d`. -/
def Below (t : TypeTable) (vs : List Value) (d : Descriptor) : Prop :=
  ∀ a, .array a ∈ vs → ∃ e, t.descriptor a.type = .ok e ∧ e.rank < d.rank

/-- `d` is the type of the earliest array of highest rank. -/
def Highest (t : TypeTable) (vs : List Value) (d : Descriptor) : Prop :=
  ∃ front a back, vs = front ++ .array a :: back ∧ t.descriptor a.type = .ok d ∧
    t.Below front d ∧ t.AtMost back d

/-- No two array types in a list have one rank. -/
def RanksApart (t : TypeTable) (vs : List Value) : Prop :=
  ∀ a b, .array a ∈ vs → .array b ∈ vs → ∀ d e, t.descriptor a.type = .ok d →
    t.descriptor b.type = .ok e → d.rank = e.rank → a.type = b.type

theorem atMost_scalar_cons {s : Scalar} : t.AtMost (.scalar s :: vs) d ↔ t.AtMost vs d := by
  simp [AtMost]

theorem atMost_array_cons {a : Object} :
    t.AtMost (.array a :: vs) d ↔
      (∃ e, t.descriptor a.type = .ok e ∧ e.rank ≤ d.rank) ∧ t.AtMost vs d := by
  simp [AtMost, or_imp, forall_and]

theorem below_scalar_cons {s : Scalar} : t.Below (.scalar s :: vs) d ↔ t.Below vs d := by
  simp [Below]

theorem below_array_cons {a : Object} :
    t.Below (.array a :: vs) d ↔
      (∃ e, t.descriptor a.type = .ok e ∧ e.rank < d.rank) ∧ t.Below vs d := by
  simp [Below, or_imp, forall_and]

theorem not_highest_nil : ¬t.Highest [] d := by
  rintro ⟨front, a, back, h, _⟩
  simp at h

theorem highest_scalar_cons {s : Scalar} : t.Highest (.scalar s :: vs) d ↔ t.Highest vs d := by
  constructor
  · rintro ⟨front, a, back, h, hd, hfront, hback⟩
    cases front with
    | nil => cases h
    | cons v front =>
      cases h
      exact ⟨front, a, back, rfl, hd, below_scalar_cons.mp hfront, hback⟩
  · rintro ⟨front, a, back, rfl, hd, hfront, hback⟩
    exact ⟨.scalar s :: front, a, back, rfl, hd, below_scalar_cons.mpr hfront, hback⟩

theorem highest_array_cons {a : Object} :
    t.Highest (.array a :: vs) d ↔ ∃ e, t.descriptor a.type = .ok e ∧
      (e = d ∧ t.AtMost vs d ∨ e.rank < d.rank ∧ t.Highest vs d) := by
  constructor
  · rintro ⟨front, b, back, h, hd, hfront, hback⟩
    cases front with
    | nil =>
      cases h
      exact ⟨d, hd, .inl ⟨rfl, hback⟩⟩
    | cons v front =>
      cases h
      obtain ⟨⟨e, he, hlt⟩, hfront⟩ := below_array_cons.mp hfront
      exact ⟨e, he, .inr ⟨hlt, front, b, back, rfl, hd, hfront, hback⟩⟩
  · rintro ⟨e, he, ⟨rfl, hrest⟩ | ⟨hlt, front, b, back, rfl, hd, hfront, hback⟩⟩
    · exact ⟨[], a, vs, rfl, he, (fun b hb => by cases hb), hrest⟩
    · exact ⟨.array a :: front, b, back, rfl, hd, below_array_cons.mpr ⟨⟨e, he, hlt⟩, hfront⟩,
        hback⟩

theorem Highest.exists_mem (h : t.Highest vs d) :
    ∃ a, .array a ∈ vs ∧ t.descriptor a.type = .ok d := by
  obtain ⟨front, a, back, rfl, hd, _⟩ := h
  exact ⟨a, by simp, hd⟩

theorem Highest.atMost (h : t.Highest vs d) : t.AtMost vs d := by
  obtain ⟨front, a, back, rfl, hd, hfront, hback⟩ := h
  intro b hb
  rcases List.mem_append.mp hb with hb | hb
  · obtain ⟨e, he, hlt⟩ := hfront b hb
    exact ⟨e, he, hlt.le⟩
  · exact atMost_array_cons.mpr ⟨⟨d, hd, le_rfl⟩, hback⟩ b hb

/-! ## The search for it -/

/-- The best type so far is kept, unless an array outranks it. -/
theorem highestFrom_some_iff :
    t.highestFrom (some e) vs = .ok (some d) ↔
      e = d ∧ t.AtMost vs d ∨ e.rank < d.rank ∧ t.Highest vs d := by
  induction vs generalizing e with
  | nil =>
    constructor
    · intro h
      cases h
      exact .inl ⟨rfl, fun a ha => by cases ha⟩
    · rintro (⟨rfl, _⟩ | ⟨_, h⟩)
      · rfl
      · exact absurd h not_highest_nil
  | cons v vs ih =>
    cases v with
    | scalar s =>
      rw [atMost_scalar_cons, highest_scalar_cons]
      exact ih
    | array a =>
      rw [atMost_array_cons, highest_array_cons, highestFrom, bind_eq_ok_iff]
      cases ha : t.descriptor a.type with
      | error cause => simp
      | ok c =>
        simp only [Except.ok.injEq, exists_eq_left', Option.all_some]
        by_cases hc : e.rank < c.rank
        · rw [if_pos (Descriptor.outranks_iff.mpr hc), ih]
          constructor
          · rintro (⟨rfl, hrest⟩ | ⟨hlt, h⟩)
            · exact .inr ⟨hc, .inl ⟨rfl, hrest⟩⟩
            · exact .inr ⟨hc.trans hlt, .inr ⟨hlt, h⟩⟩
          · rintro (⟨rfl, hle, _⟩ | ⟨_, h⟩)
            · exact absurd hle hc.not_ge
            · exact h
        · rw [if_neg fun h => hc (Descriptor.outranks_iff.mp h), ih]
          have hle : c.rank ≤ e.rank := not_lt.mp hc
          constructor
          · rintro (⟨rfl, hrest⟩ | ⟨hlt, h⟩)
            · exact .inl ⟨rfl, hle, hrest⟩
            · exact .inr ⟨hlt, .inr ⟨hle.trans_lt hlt, h⟩⟩
          · rintro (⟨rfl, _, hrest⟩ | ⟨hlt, ⟨rfl, _⟩ | ⟨_, h⟩⟩)
            · exact .inl ⟨rfl, hrest⟩
            · exact absurd hlt hc
            · exact .inr ⟨hlt, h⟩

theorem highestFrom_none_iff : t.highestFrom none vs = .ok (some d) ↔ t.Highest vs d := by
  induction vs with
  | nil => exact ⟨fun h => (by cases h), fun h => absurd h not_highest_nil⟩
  | cons v vs ih =>
    cases v with
    | scalar s =>
      rw [highest_scalar_cons]
      exact ih
    | array a =>
      rw [highest_array_cons, highestFrom, bind_eq_ok_iff]
      simp only [Option.all_none, if_true, highestFrom_some_iff]

/-- Operands are promoted to the type of the earliest array of highest rank. -/
theorem target_eq_ok_iff : t.target vs = .ok d ↔ t.Highest vs d := by
  rw [← highestFrom_none_iff, target]
  rcases t.highestFrom none vs with cause | _ | e
  · simp [bind, Except.bind]
  · simp [bind, Except.bind, throw, throwThe, MonadExceptOf.throw]
  · simp [bind, Except.bind, pure, Except.pure]

theorem exists_highest (harray : ∃ a, .array a ∈ vs)
    (htypes : ∀ a, .array a ∈ vs → ∃ e, t.descriptor a.type = .ok e) : ∃ d, t.Highest vs d := by
  induction vs with
  | nil =>
    obtain ⟨a, ha⟩ := harray
    cases ha
  | cons v vs ih =>
    have hrest := fun a ha => htypes a (List.mem_cons_of_mem _ ha)
    cases v with
    | scalar s =>
      obtain ⟨d, hd⟩ := ih (by simpa using harray) hrest
      exact ⟨d, highest_scalar_cons.mpr hd⟩
    | array a =>
      obtain ⟨e, he⟩ := htypes a (by simp)
      by_cases hmore : ∃ b, .array b ∈ vs
      · obtain ⟨d, hd⟩ := ih hmore hrest
        by_cases hlt : e.rank < d.rank
        · exact ⟨d, highest_array_cons.mpr ⟨e, he, .inr ⟨hlt, hd⟩⟩⟩
        · refine ⟨e, highest_array_cons.mpr ⟨e, he, .inl ⟨rfl, fun b hb => ?_⟩⟩⟩
          obtain ⟨c, hc, hle⟩ := hd.atMost b hb
          exact ⟨c, hc, hle.trans (not_lt.mp hlt)⟩
      · exact ⟨e, highest_array_cons.mpr ⟨e, he, .inl ⟨rfl, fun b hb => absurd ⟨b, hb⟩ hmore⟩⟩⟩

/-- Where ranks tell types apart, the order of the operands does not matter. -/
theorem Highest.of_perm (hp : ws.Perm vs) (hr : t.RanksApart vs) (h : t.Highest vs d) :
    t.Highest ws d := by
  obtain ⟨a, ha, hd⟩ := h.exists_mem
  obtain ⟨e, he⟩ := exists_highest ⟨a, hp.mem_iff.mpr ha⟩ fun b hb =>
    (h.atMost b (hp.mem_iff.mp hb)).imp fun _ hc => hc.1
  obtain ⟨b, hb, hdb⟩ := he.exists_mem
  obtain ⟨d', hd', hde⟩ := he.atMost a (hp.mem_iff.mpr ha)
  obtain ⟨e', he', hed⟩ := h.atMost b (hp.mem_iff.mp hb)
  cases hd.symm.trans hd'
  cases hdb.symm.trans he'
  have htype := hr a b ha (hp.mem_iff.mp hb) d e hd hdb (le_antisymm hde hed)
  rw [htype, hdb] at hd
  exact Except.ok.inj hd ▸ he

theorem highest_perm_iff (hp : ws.Perm vs) (hr : t.RanksApart vs) :
    t.Highest ws d ↔ t.Highest vs d := by
  refine ⟨fun h => h.of_perm hp.symm fun a b ha hb => ?_, fun h => h.of_perm hp hr⟩
  exact hr a b (hp.mem_iff.mp ha) (hp.mem_iff.mp hb)

/-! ## Types found under their keys -/

section Keys

variable {key : TypeKey} {site : Site} {v w : Value}

theorem registered_of_descriptor (hs : t.Sound) (hkey : key.index < 0x100000000)
    (h : t.descriptor key = .ok d) : d.key = key ∧ t.Registered d := by
  have hfound := descriptor_eq_ok_iff.mp h
  have hd : d.key = key := (hs.placed key.index d hkey hfound).key_eq
  exact ⟨hd, by rw [Registered, hd, hfound]⟩

theorem index_maskType_lt (hs : t.Sound) (ho : t.Ordered) (hd : t.Registered d) :
    d.maskType.index < 0x100000000 := by
  have hkey := hs.key_lt d (List.mem_of_getElem? hd)
  unfold Descriptor.maskType
  cases hm : d.info.mask with
  | none => exact hkey
  | some k => exact (ho.mask_lt _ d k hd hm).trans hkey

theorem type?_of_adapt (hs : t.Sound) (hkey : key.index < 0x100000000)
    (h : t.adapt site key v = .ok w) : w.type? = some key := by
  unfold adapt at h
  split at h
  · cases h
    assumption
  · obtain ⟨d, hd, h⟩ := bind_eq_ok_iff.mp h
    obtain ⟨b, hb, rfl⟩ := map_eq_ok_iff.mp h
    have hfound := (registered_of_descriptor hs hkey (lift_eq_ok_iff.mp hd)).1
    exact congrArg some ((id_type_of_convertTo hb).2.trans hfound)

end Keys

end TypeTable

/-! ## Replacing operands -/

theorem replaceInOrder_eq_ok_iff {f : Nat → Value → Dispatched Value} {i : Nat}
    {vs ws : List Value} :
    replaceInOrder f i vs = (.ok (), ws) ↔
      List.Forall₂ (fun p w => f p.2 p.1 = .ok w) (vs.zipIdx i) ws := by
  refine ⟨TypeTable.forall₂_zipIdx_of_replaceInOrder, fun h => ?_⟩
  induction vs generalizing i ws with
  | nil =>
    cases h
    rfl
  | cons v vs ih =>
    rw [List.zipIdx_cons] at h
    cases h with
    | cons hv hrest =>
      rw [replaceInOrder, hv, ih hrest]

theorem forall₂_zipIdx_iff {R : Value → Nat → Value → Prop} {vs ws : List Value} {k : Nat} :
    List.Forall₂ (fun p w => R p.1 p.2 w) (vs.zipIdx k) ws ↔
      ws.length = vs.length ∧
        ∀ (i : Nat) (v w : Value), vs[i]? = some v → ws[i]? = some w → R v (k + i) w := by
  induction vs generalizing k ws with
  | nil => simp
  | cons v vs ih =>
    cases ws with
    | nil => simp
    | cons w ws =>
      rw [List.zipIdx_cons, List.forall₂_cons, ih]
      constructor
      · rintro ⟨hw, hlen, hrest⟩
        refine ⟨by simpa using hlen, fun i v' w' hv' hw' => ?_⟩
        cases i with
        | zero =>
          cases hv'
          cases hw'
          exact hw
        | succ i => exact (by omega : k + 1 + i = k + (i + 1)) ▸ hrest i v' w' hv' hw'
      · rintro ⟨hlen, h⟩
        refine ⟨h 0 v w rfl rfl, by simpa using hlen, fun i v' w' hv' hw' => ?_⟩
        exact (by omega : k + (i + 1) = k + 1 + i) ▸ h (i + 1) v' w' hv' hw'

namespace Unifier

variable {t : TypeTable} {site : Site} {mode : Mode} {d : Descriptor} {vs us : List Value}

/-- Promotion succeeds if there is a highest type and every operand, the mask included, can be
brought to the type that is required of it. -/
theorem promote_eq_ok_iff :
    promote t site mode vs = (.ok (), us) ↔
      ∃ d, t.Highest (vs.drop mode.representative) d ∧
        List.Forall₂ (fun p w => t.adapt (site.child p.2) (d.required mode p.2) p.1 = .ok w)
          vs.zipIdx us := by
  simp only [← TypeTable.target_eq_ok_iff]
  by_cases hm : mode = .select
  · subst hm
    cases vs with
    | nil =>
      have hnone : ∀ d, t.target ([].drop Mode.select.representative) ≠ .ok d :=
        fun d hd => TypeTable.not_highest_nil (TypeTable.target_eq_ok_iff.mp hd)
      constructor
      · intro h
        cases htarget : t.target ([].drop Mode.select.representative) with
        | ok d => exact absurd htarget (hnone d)
        | error cause =>
          rw [promote_of_target_eq_error htarget] at h
          cases h
      · rintro ⟨d, hd, _⟩
        exact absurd hd (hnone d)
    | cons mask vs =>
      have hmask : ∀ d : Descriptor, d.required .select 0 = d.maskType := fun _ => rfl
      -- behind the mask all operands are value operands
      have hvalues : ∀ (d : Descriptor) (values : List Value),
          replaceInOrder (fun i => t.adapt (site.child i) d.key) 1 vs = (.ok (), values) ↔
            List.Forall₂ (fun p w => t.adapt (site.child p.2) (d.required .select p.2) p.1 = .ok w)
              (vs.zipIdx 1) values := by
        intro d values
        rw [replaceInOrder_eq_ok_iff,
          forall₂_zipIdx_iff (R := fun v i w => t.adapt (site.child i) d.key v = .ok w),
          forall₂_zipIdx_iff
            (R := fun v i w => t.adapt (site.child i) (d.required .select i) v = .ok w)]
        have hkey : ∀ i, d.required .select (1 + i) = d.key := fun i =>
          if_neg (by simp [Mode.representative])
        simp only [hkey]
      constructor
      · intro h
        obtain ⟨d, mask', values, hd, hm', hr, rfl⟩ := exists_of_promote_select h
        exact ⟨d, hd, .cons hm' ((hvalues d values).mp hr)⟩
      · rintro ⟨d, hd, h⟩
        cases h with
        | cons hm' hrest =>
          have hd : t.target vs = .ok d := hd
          rw [promote_select, hd]
          simp only [(hvalues d _).mpr hrest]
          rw [hmask] at hm'
          simp only [hm']
  · have hzero := representative_eq_zero hm
    have hkey : ∀ (d : Descriptor) i, d.required mode i = d.key := fun d i =>
      if_neg (by omega)
    simp only [hzero, List.drop_zero, hkey]
    constructor
    · intro h
      obtain ⟨d, hd, hr⟩ := exists_of_promote hm h
      exact ⟨d, hd, replaceInOrder_eq_ok_iff.mp hr⟩
    · rintro ⟨d, hd, h⟩
      rw [promote_eq hm, hd]
      exact replaceInOrder_eq_ok_iff.mpr h

/-- The operands `us` are the operands `vs` brought to the types that promotion to `d` requires.
Those that had them already are the same objects as before. -/
structure PromotedTo (mode : Mode) (d : Descriptor) (vs us : List Value) : Prop where
  length_eq : us.length = vs.length
  type?_eq : ∀ (i : Nat) (u : Value), us[i]? = some u → u.type? = some (d.required mode i)
  same : ∀ (i : Nat) (v : Value), vs[i]? = some v → v.type? = some (d.required mode i) →
    us[i]? = some v

theorem promotedTo_of_adapt (hkeys : ∀ i, (d.required mode i).index < 0x100000000)
    (hs : t.Sound)
    (h : List.Forall₂ (fun p w => t.adapt (site.child p.2) (d.required mode p.2) p.1 = .ok w)
      vs.zipIdx us) : PromotedTo mode d vs us := by
  obtain ⟨hlen, hadapt⟩ := (forall₂_zipIdx_iff
    (R := fun v i w => t.adapt (site.child i) (d.required mode i) v = .ok w)).mp h
  simp only [Nat.zero_add] at hadapt
  refine ⟨hlen, fun i u hu => ?_, fun i v hv htype => ?_⟩
  · have hi : i < vs.length := hlen ▸ (List.getElem?_eq_some_iff.mp hu).1
    exact TypeTable.type?_of_adapt hs (hkeys i) (hadapt i _ u (List.getElem?_eq_getElem hi) hu)
  · have hi : i < us.length := hlen ▸ (List.getElem?_eq_some_iff.mp hv).1
    have hu := List.getElem?_eq_getElem hi
    have hsame := hadapt i v _ hv hu
    rw [TypeTable.adapt_of_type? htype, Except.ok.injEq] at hsame
    rw [hu, hsame]

theorem PromotedTo.promote_eq (h : PromotedTo mode d vs us) (hd : t.Registered d)
    (hlt : mode.representative < vs.length) (site : Site) :
    promote t site mode us = (.ok (), us) := by
  have hvalues : ∀ u ∈ us.drop mode.representative, u.type? = some d.key := by
    intro u hu
    obtain ⟨i, hi⟩ := List.getElem?_of_mem hu
    rw [List.getElem?_drop] at hi
    rw [h.type?_eq _ u hi, Descriptor.required, if_neg (by omega)]
  have hne : us.drop mode.representative ≠ [] := by
    rw [ne_eq, List.drop_eq_nil_iff, h.length_eq]
    omega
  refine promote_eq_ok_iff.mpr
    ⟨d, TypeTable.target_eq_ok_iff.mp (TypeTable.target_of_type? hd hvalues hne), ?_⟩
  refine (forall₂_zipIdx_iff
    (R := fun v i w => t.adapt (site.child i) (d.required mode i) v = .ok w)).mpr
    ⟨rfl, fun i v w hv hw => ?_⟩
  cases hv.symm.trans hw
  rw [Nat.zero_add]
  exact TypeTable.adapt_of_type? (h.type?_eq i v hv)

end Unifier

/-- What promotion has achieved when it succeeds: the value operands have the type of the earliest
array of highest rank among them, a mask has the mask type of that type, operands of these types
are the same objects as before, and promoting once more changes nothing. Where ranks tell the types
of the value operands apart, the type is the same for every order of them. -/
theorem promote_postcondition {r : Registry} (hr : r.Built) {mode : Mode} {vs : List Value}
    (hkeys : ∀ v ∈ vs, ∀ key, v.type? = some key → key.index < 0x100000000) :
    (∀ site us, Unifier.promote r.types site mode vs = (.ok (), us) →
      ∃ d, r.types.Highest (vs.drop mode.representative) d ∧
        Unifier.PromotedTo mode d vs us ∧
        ∀ site', Unifier.promote r.types site' mode us = (.ok (), us)) ∧
    (r.types.RanksApart (vs.drop mode.representative) →
      ∀ ws, ws.Perm (vs.drop mode.representative) → ∀ d,
        r.types.Highest ws d ↔ r.types.Highest (vs.drop mode.representative) d) := by
  refine ⟨fun site us h => ?_, fun hapart ws hp d => TypeTable.highest_perm_iff hp hapart⟩
  obtain ⟨d, hd, hall⟩ := Unifier.promote_eq_ok_iff.mp h
  obtain ⟨a, ha, hfound⟩ := hd.exists_mem
  have hlt : mode.representative < vs.length := by
    by_contra hle
    rw [List.drop_eq_nil_of_le (by omega)] at ha
    cases ha
  have hreg := (TypeTable.registered_of_descriptor hr.sound
    (hkeys _ (List.mem_of_mem_drop ha) _ rfl) hfound).2
  have hrequired : ∀ i, (d.required mode i).index < 0x100000000 := by
    intro i
    unfold Descriptor.required
    split
    · exact TypeTable.index_maskType_lt hr.sound hr.ordered hreg
    · exact hr.sound.key_lt d (List.mem_of_getElem? hreg)
  have hpromoted := Unifier.promotedTo_of_adapt hrequired hr.sound hall
  exact ⟨d, hd, hpromoted, fun site' => hpromoted.promote_eq hreg hlt site'⟩

/-- A selection between an array and a scalar by integers: the array stays, the scalar becomes an
array, and the integers become a mask. -/
theorem promote_postcondition_selection :
    let x := Stock.integerArray ⟨[0]⟩ [1, 0]
    let y := Stock.integerArray ⟨[1]⟩ [7, 8]
    let us := [.array ⟨⟨[0, 2]⟩, Stock.boolX, .flat ⟨.bool, [true, false]⟩⟩, y,
      Stock.integerArray ⟨[2, 2]⟩ [1]]
    ∃ d, Stock.registry.types.Highest [y, .scalar (.ofBool true)] d ∧
      Unifier.PromotedTo .select d [x, y, .scalar (.ofBool true)] us ∧
      Unifier.promote Stock.registry.types ⟨[3]⟩ .select us = (.ok (), us) ∧
      Stock.registry.types.Highest [.scalar (.ofBool true), y] d := by
  intro x y us
  have hkeys : ∀ v ∈ [x, y, .scalar (.ofBool true)], ∀ key, v.type? = some key →
      key.index < 0x100000000 := by
    intro v hv key hkey
    simp only [List.mem_cons, List.not_mem_nil, or_false] at hv
    rcases hv with rfl | rfl | rfl <;> cases hkey <;> decide
  have hapart : Stock.registry.types.RanksApart [y, .scalar (.ofBool true)] := by
    intro a b ha hb d e _ _ _
    simp only [List.mem_cons, List.not_mem_nil, or_false, reduceCtorEq] at ha hb
    rw [Value.array.inj ha, Value.array.inj hb]
  obtain ⟨hpromote, hperm⟩ := @promote_postcondition _ Stock.built_registry .select _ hkeys
  obtain ⟨d, hd, hpromoted, hagain⟩ := hpromote ⟨[2]⟩ us rfl
  exact ⟨d, hd, hpromoted, hagain ⟨[3]⟩, (hperm hapart _ (.swap _ _ _) d).mpr hd⟩

end ArrayDispatch
