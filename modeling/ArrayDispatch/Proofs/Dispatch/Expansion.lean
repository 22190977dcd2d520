import ArrayDispatch.Proofs.Dispatch.Tensor
import ArrayDispatch.Stock

/-!
Expansion of an array from one shape to another of the same rank whose elements can be counted. Main
statement: every position of the target repeats the element at its own coordinates, taken as 0 on
the axes of extent 1, and an array with as many elements as its shape says is always expanded.
-/

namespace ArrayDispatch

open Shape

namespace Shape

variable {src dst : List Nat}

/-- The position of `src` that a position of `dst` repeats: that of its own coordinates, taken as
0 on the axes of extent 1. -/
def repeated (src dst : List Nat) (k : Nat) : Nat := offset src (pin src (coordinates dst k))

theorem repeated_lt_size (hs : Stretches src dst) {k : Nat} (hk : k < size dst) :
    repeated src dst k < size src :=
  offset_lt_size (within_pin hs (within_coordinates hk))

theorem getElem?_indices_of_lt (hs : Stretches src dst) {k : Nat} (hk : k < size dst) :
    (indices src dst (size dst))[k]? = some (repeated src dst k) := by
  have h := getElem?_indices hs (within_coordinates hk)
  rwa [offset_coordinates hk] at h

theorem gather_of_fits (hs : Stretches src dst) (hfits : Fits dst) :
    gather src dst = .ok ((List.range (size dst)).map (repeated src dst)) := by
  rw [gather, count_of_fits hfits]
  refine congrArg Except.ok (List.ext_getElem? fun k => ?_)
  by_cases hk : k < size dst
  · rw [getElem?_indices_of_lt hs hk, List.getElem?_map, List.getElem?_range hk, Option.map_some]
  · rw [List.getElem?_eq_none (by rw [length_indices]; omega),
      List.getElem?_eq_none (by simp; omega)]

/-- The step for an axis moves no index up. -/
theorem mod_add_div_mul_le (x : Nat) {block next : Nat} (h : next ≤ block) :
    x % next + x / block * next ≤ x := by
  have hle : next * (x / block) ≤ x :=
    (Nat.mul_le_mul_right _ h).trans (Nat.mul_div_le x block)
  have hmod : (x - next * (x / block)) % next = x % next := Nat.sub_mul_mod hle
  have hrest := Nat.mod_le (x - next * (x / block)) next
  rw [Nat.mul_comm (x / block)]
  omega

theorem lt_of_mem_pinAxes {bound : Nat} (axes : List (Nat × Nat)) {index : List Nat} {block : Nat}
    (h : ∀ x ∈ index, x < bound) : ∀ x ∈ pinAxes index block axes, x < bound := by
  induction axes generalizing index block with
  | nil => exact h
  | cons axis axes ih =>
    obtain ⟨m, n⟩ := axis
    refine ih fun x hx => ?_
    split at hx
    · obtain ⟨y, hy, rfl⟩ := List.mem_map.mp hx
      exact (mod_add_div_mul_le y (Nat.div_le_self block n)).trans_lt (h y hy)
    · exact h x hx

end Shape

namespace Object

variable {src dst : List Nat}

theorem exists_expand_repeated {a : Object} (hs : Stretches src dst) (hfits : Fits dst)
    (hf : a.payload.form ≠ .tensor) (hlen : a.length = size src) (site : Site) :
    ∃ b, a.expand site src dst = .ok b ∧ b.type = a.type ∧ b.payload.form = a.payload.form ∧
      b.length = size dst ∧ ∀ k, k < size dst →
        ∃ v, b.payload.get? k = some v ∧ a.payload.get? (repeated src dst k) = some v := by
  obtain ⟨b, hb, hx⟩ := exists_expand hf hlen (.inr hs) hfits site
  have hsize : b.length = size dst := by
    rw [hx.length_eq]
    split
    · rename_i hnil
      subst hnil
      cases hs
      rfl
    · rfl
  refine ⟨b, hb, hx.type_eq, hx.form_eq, hsize, fun k hk => ?_⟩
  have hread : b.payload.get? k = a.payload.get? (repeated src dst k) := by
    have h := hx.element?_eq _ (within_coordinates hk)
    rwa [Value.element?, offset_of_size_eq (within_coordinates hk) hsize,
      offset_coordinates hk] at h
  obtain ⟨v, hv⟩ := Payload.exists_get? hf (hlen ▸ repeated_lt_size hs hk : _ < a.payload.length)
  exact ⟨v, hread.trans hv, hv⟩

end Object

/-- Expansion to a shape whose elements can be counted repeats elements in row-major order. The loop
over the axes divides by extents and block sizes that are never 0, and what it computes on the way
stays below the number of elements. -/
theorem expand_rowMajor {src dst : List Nat} (hs : Stretches src dst) (hfits : Fits dst) :
    (∃ index, gather src dst = .ok index ∧ index.length = size dst ∧ ∀ k, k < size dst →
      index[k]? = some (repeated src dst k) ∧ repeated src dst k < size src ∧
      Within (coordinates dst k) dst ∧ offset dst (coordinates dst k) = k) ∧
    (∀ front n back, dst = front ++ n :: back → size dst ≠ 0 →
      (∀ x ∈ pinAxes (List.range (size dst)) (size dst) (src.zip front), x < size dst) ∧
      gather src dst = .ok
        (pinAxes (pinAxes (List.range (size dst)) (size dst) (src.zip front)) (size (n :: back))
          ((src.drop front.length).zip (n :: back))) ∧
      n ≠ 0 ∧ size (n :: back) ≠ 0 ∧ size (n :: back) / n ≠ 0) ∧
    ∀ (a : Object) (site : Site), a.payload.form ≠ .tensor → a.length = size src →
      ∃ b, a.expand site src dst = .ok b ∧ b.type = a.type ∧ b.payload.form = a.payload.form ∧
        b.length = size dst ∧ ∀ k, k < size dst →
          ∃ v, b.payload.get? k = some v ∧ a.payload.get? (repeated src dst k) = some v := by
  refine ⟨⟨_, gather_of_fits hs hfits, by simp, fun k hk => ⟨?_, repeated_lt_size hs hk,
    within_coordinates hk, offset_coordinates hk⟩⟩, ?_, fun a site hf hlen =>
      a.exists_expand_repeated hs hfits hf hlen site⟩
  · rw [List.getElem?_map, List.getElem?_range hk, Option.map_some]
  rintro front n back rfl hsize
  obtain ⟨hn, hback⟩ := pos_of_size_pos (Nat.pos_of_ne_zero hsize)
  have hblock : size (n :: back) / n = size back := by
    rw [size_cons, Nat.mul_div_cancel_left _ hn]
  have hrest : 0 < size (n :: back) := by
    rw [size_cons]
    exact Nat.mul_pos hn hback
  refine ⟨lt_of_mem_pinAxes _ fun x hx => List.mem_range.mp hx, ?_, by omega, by omega, by omega⟩
  rw [gather, count_of_fits hfits]
  refine congrArg Except.ok ?_
  rw [indices, if_neg hsize]
  exact pinAxes_append src _ (Nat.pos_of_ne_zero hsize)

/-- A column of two numbers, repeated along rows of three. -/
theorem expand_rowMajor_column :
    let column : Object := ⟨⟨[0]⟩, Stock.int32X, .flat ⟨.integer .int32, [7, 9]⟩⟩
    Stretches [2, 1] [2, 3] ∧ Fits [2, 3] ∧ column.payload.form ≠ .tensor ∧
    column.length = size [2, 1] ∧
    (∃ index, gather [2, 1] [2, 3] = .ok index ∧ index.length = 6 ∧ index[4]? = some 1) ∧
    ∃ b, column.expand ⟨[1]⟩ [2, 1] [2, 3] = .ok b ∧ b.length = 6 ∧
      ∃ v, b.payload.get? 4 = some v ∧ column.payload.get? 1 = some v := by
  intro column
  have hs : Stretches [2, 1] [2, 3] := .cons (.inr rfl) (.cons (.inl rfl) .nil)
  have hfits : Fits [2, 3] := by decide
  have hf : column.payload.form ≠ .tensor := by decide
  obtain ⟨⟨index, hindex, hcount, hrepeated⟩, _, hexpand⟩ := expand_rowMajor hs hfits
  obtain ⟨b, hb, _, _, hlen, hget⟩ := hexpand column ⟨[1]⟩ hf rfl
  exact ⟨hs, hfits, hf, rfl, ⟨index, hindex, hcount, (hrepeated 4 (by decide)).1⟩, b, hb, hlen,
    hget 4 (by decide)⟩

/-- One number is not repeated to more places than a size counts. -/
theorem expand_rowMajor_overflow :
    let number : Object := ⟨⟨[0]⟩, Stock.int32X, .flat ⟨.integer .int32, [7]⟩⟩
    Stretches [1, 1] [3, 6148914691236517206] ∧ number.payload.form ≠ .tensor ∧
    number.length = size [1, 1] ∧ (∀ index, gather [1, 1] [3, 6148914691236517206] ≠ .ok index) ∧
    ∀ b, number.expand ⟨[1]⟩ [1, 1] [3, 6148914691236517206] ≠ .ok b := by
  intro number
  have hfits : ¬Fits [3, 6148914691236517206] := by decide
  refine ⟨.cons (.inl rfl) (.cons (.inl rfl) .nil), by decide, rfl, fun index => ?_, fun b => ?_⟩
  · simp [gather, count_of_not_fits hfits, Except.map]
  · rw [Object.expand_of_not_fits (by decide) hfits]
    simp

end ArrayDispatch
