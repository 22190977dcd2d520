import ArrayDispatch.Proofs.Dispatch.Call
import ArrayDispatch.Proofs.Stock.Registry

/-!
Operations by name. The function that a registry has for an operation from the start leads to the
same outcome as the method of the operation, on every level of nested calls; in errors its frame
stands where the frame of the method would.
-/

namespace ArrayDispatch

/-! ## Errors of named functions read as errors of methods -/

/-- The frame of a function named like an operation, read as the frame of its method. -/
def Frame.asMethod : Frame → Frame
  | function name type =>
    match Op.ofName? name with
    | some op => method type op
    | none => function name type
  | f => f

def DispatchError.asMethod (e : DispatchError) : DispatchError :=
  { e with frames := e.frames.map Frame.asMethod }

theorem DispatchError.asMethod_within (e : DispatchError) (f : Frame) :
    (e.within f).asMethod = e.asMethod.within f.asMethod := by
  simp [asMethod, within]

namespace Dispatched

variable {α : Type} {x y : Dispatched α}

/-- The result, with all frames of its error read as those of methods. -/
def asMethod (x : Dispatched α) : Dispatched α := x.mapError DispatchError.asMethod

theorem asMethod_escaping (f : Frame) (x : Dispatched α) :
    asMethod (escaping f x) = escaping f.asMethod (asMethod x) := by
  cases x with
  | ok a => rfl
  | error e => exact congrArg Except.error (e.asMethod_within f)

theorem cases_of_asMethod_eq (h : asMethod x = asMethod y) :
    (∃ a, x = .ok a ∧ y = .ok a) ∨
      ∃ e e', x = .error e ∧ y = .error e' ∧ e.asMethod = e'.asMethod := by
  cases x with
  | ok a =>
    cases y with
    | ok b =>
      cases h
      exact .inl ⟨a, rfl, rfl⟩
    | error e => cases h
  | error e =>
    cases y with
    | ok b => cases h
    | error e' => exact .inr ⟨e, e', rfl, rfl, Except.error.inj h⟩

theorem asMethod_bind {β : Type} {f g : α → Dispatched β} (h : asMethod x = asMethod y)
    (hfg : ∀ a, asMethod (f a) = asMethod (g a)) :
    asMethod (x >>= f) = asMethod (y >>= g) := by
  rcases cases_of_asMethod_eq h with ⟨a, rfl, rfl⟩ | ⟨e, e', rfl, rfl, he⟩
  · exact hfg a
  · exact congrArg Except.error he

end Dispatched

namespace Outcome

/-- The outcome, with all frames of its error read as those of methods. -/
def asMethod (o : Outcome) : Outcome := { o with result := Dispatched.asMethod o.result }

theorem asMethod_within (o : Outcome) (f : Frame) :
    (o.within f).asMethod = o.asMethod.within f.asMethod := by
  rw [asMethod, result_within, Dispatched.asMethod_escaping]
  rfl

theorem asMethod_failed {e e' : DispatchError} (operands : List Value)
    (h : e.asMethod = e'.asMethod) : (failed operands e).asMethod = (failed operands e').asMethod :=
  congrArg (fun e => failed operands e) h

end Outcome

/-! ## Calls by method and by function -/

/-- A mode in which an operation has the same meaning on its operands and on their elements. -/
inductive Mode.Suits : Mode → Op → Prop
  | normal {op : Op} (h : op ≠ .select) (h' : op ≠ .richcmp) : Suits .normal op
  | inPlace {op : Op} (h : op ≠ .select) (h' : op ≠ .richcmp) : Suits .inPlace op
  | select : Suits .select .select

namespace Mode.Suits

variable {mode : Mode} {op : Op}

theorem ne_richcmp (h : mode.Suits op) : op ≠ .richcmp := by
  cases h with
  | normal _ h' => exact h'
  | inPlace _ h' => exact h'
  | select => decide

theorem nested (h : mode.Suits op) : mode.nested.Suits op := by
  cases h with
  | normal h h' => exact .normal h h'
  | inPlace h h' => exact .normal h h'
  | select => exact .select

/-- The mode of nested calls is the one that the function of the operation calls it in. -/
theorem nested_eq (h : mode.Suits op) :
    mode.nested = if op = .select then .select else .normal := by
  cases h with
  | normal h _ => exact (if_neg h).symm
  | inPlace h _ => exact (if_neg h).symm
  | select => rfl

end Mode.Suits

namespace Call

def byMethod (mode : Mode) (op : Op) : Call := ⟨mode, op, .method⟩

def byFunction (mode : Mode) (op : Op) : Call := ⟨mode, op, .function op.name⟩

variable (mode : Mode) (op : Op)

@[simp] theorem op_byMethod : (byMethod mode op).op = op := rfl

@[simp] theorem op_byFunction : (byFunction mode op).op = op := rfl

@[simp] theorem mode_byFunction : (byFunction mode op).mode = (byMethod mode op).mode := rfl

@[simp] theorem representative_byFunction :
    (byFunction mode op).representative = (byMethod mode op).representative := rfl

@[simp] theorem movable?_byFunction :
    (byFunction mode op).movable? = (byMethod mode op).movable? := rfl

@[simp] theorem resultType_byFunction :
    (byFunction mode op).resultType = (byMethod mode op).resultType := rfl

theorem asMethod_frame_byFunction (typeName : String) :
    ((byFunction mode op).frame typeName).asMethod =
      ((byMethod mode op).frame typeName).asMethod := by
  change Frame.asMethod (.function op.name typeName) = .method typeName op
  rw [Frame.asMethod, Op.ofName?_name]

theorem isUnordered_byFunction (d : Descriptor) :
    (byFunction mode op).isUnordered d = (byMethod mode op).isUnordered d := by
  cases op <;> rfl

end Call

theorem Kernel.run_function (op : Op) (name : String) (kernel : Kernel) (args : List Payload) :
    kernel.run op (.function name) args = kernel.run op .method args := by
  cases kernel with
  | unary k => rcases args with _ | ⟨a, _ | ⟨b, args⟩⟩ <;> rfl
  | binary k => rcases args with _ | ⟨a, _ | ⟨b, _ | ⟨c, args⟩⟩⟩ <;> rfl
  | ternary k => rcases args with _ | ⟨a, _ | ⟨b, _ | ⟨c, _ | ⟨d, args⟩⟩⟩⟩ <;> rfl
  | compare k => rcases args with _ | ⟨a, _ | ⟨b, _ | ⟨c, args⟩⟩⟩ <;> rfl

theorem Op.name_inj {op op' : Op} (h : op.name = op'.name) : op = op' := by
  have hfound := Op.ofName?_name op
  rw [h, Op.ofName?_name] at hfound
  exact (Option.some.inj hfound).symm

theorem lookup_map_name {β : Type} {ops : List Op} {op : Op} (h : op ∈ ops) (f : Op → β) :
    (ops.map fun o => (o.name, f o)).lookup op.name = some (f op) := by
  induction ops with
  | nil => cases h
  | cons o ops ih =>
    rw [List.map_cons, List.lookup_cons]
    by_cases ho : op = o
    · simp [ho]
    · have hname : (op.name == o.name) = false := beq_false_of_ne fun h => ho (Op.name_inj h)
      rw [hname]
      exact ih ((List.mem_cons.mp h).resolve_left ho)

namespace Registry

theorem function?_empty {op : Op} (h : op ≠ .richcmp) :
    Registry.empty.function? op.name = some (operationFunction op) :=
  lookup_map_name (List.mem_filter.mpr ⟨op.mem_table, by simpa using h⟩) operationFunction

end Registry

/-! ## Loops -/

namespace Loop

variable {l : Loop} {k : Counterpart}

def withCounterpart (l : Loop) (k : Counterpart) : Loop := { l with counterpart := k }

@[simp] theorem target_withCounterpart : (l.withCounterpart k).target = l.target := rfl

variable (hk : ∀ site args,
  Dispatched.asMethod (k site args) = Dispatched.asMethod (l.counterpart site args))

include hk

theorem position_asMethod (p : Payload) (i : Nat) :
    Dispatched.asMethod ((l.withCounterpart k).position p i) =
      Dispatched.asMethod (l.position p i) := by
  refine Dispatched.asMethod_bind rfl fun args => Dispatched.asMethod_bind ?_ fun v => rfl
  rw [Dispatched.asMethod_escaping, Dispatched.asMethod_escaping]
  exact congrArg _ (hk (l.site.child i) args)

theorem runFrom_cases (p : Payload) (is : List Nat) :
    (∃ q, (l.withCounterpart k).runFrom p is = (.ok (), q) ∧ l.runFrom p is = (.ok (), q)) ∨
      ∃ e e' q, (l.withCounterpart k).runFrom p is = (.error e, q) ∧
        l.runFrom p is = (.error e', q) ∧ e.asMethod = e'.asMethod := by
  induction is generalizing p with
  | nil => exact .inl ⟨p, rfl, rfl⟩
  | cons i is ih =>
    rw [runFrom, runFrom]
    rcases Dispatched.cases_of_asMethod_eq (position_asMethod hk p i) with
      ⟨q, hq, hq'⟩ | ⟨e, e', he, he', heq⟩
    · rw [hq, hq']
      exact ih q
    · rw [he, he']
      exact .inr ⟨e, e', p, rfl, rfl, heq⟩

theorem intoNew_asMethod (held : List Value) (site : Site) (len : Nat) (movable : Option Object)
    (operands : List Value) :
    ((l.withCounterpart k).intoNew held site len movable operands).asMethod =
      (l.intoNew held site len movable operands).asMethod := by
  rw [intoNew, intoNew, target_withCounterpart, run, run]
  rcases runFrom_cases hk (l.target.alloc site len) (List.range len) with
    ⟨q, hq, hq'⟩ | ⟨e, e', q, he, he', heq⟩
  · rw [hq, hq']
  · rw [he, he']
    exact Outcome.asMethod_failed operands heq

theorem intoOperand_asMethod (a : Object) (unique : Bool) (site : Site) (len : Nat)
    (operands : List Value) :
    ((l.withCounterpart k).intoOperand a unique site len operands).asMethod =
      (l.intoOperand a unique site len operands).asMethod := by
  rw [intoOperand, intoOperand, run, run]
  rcases runFrom_cases hk a.payload (List.range len) with
    ⟨q, hq, hq'⟩ | ⟨e, e', q, he, he', heq⟩
  · rw [hq, hq']
  · rw [he, he']
    simp only [Outcome.asMethod, Except.map, Except.toBool, Dispatched.asMethod, Except.mapError,
      heq]

end Loop

/-! ## Calls -/

/-- A dispatcher for which the function of an operation and its method lead to the same. -/
def Dispatcher.Interchanges (self : Dispatcher) : Prop :=
  ∀ mode op, mode.Suits op → ∀ held site operands,
    (self (.byFunction mode op) held site operands).asMethod =
      (self (.byMethod mode op) held site operands).asMethod

theorem Dispatcher.Interchanges.onElements {self : Dispatcher} (h : self.Interchanges) {mode : Mode}
    {op : Op} (hm : mode.Suits op) (t : TypeTable) (site : Site) (args : List Value) :
    Dispatched.asMethod (self.onElements t site (.byFunction mode op) args) =
      Dispatched.asMethod (self.onElements t site (.byMethod mode op) args) := by
  have hresult := congrArg Outcome.result (h mode op hm args site args)
  unfold Dispatcher.onElements
  rcases Dispatched.cases_of_asMethod_eq hresult with ⟨o, ho, ho'⟩ | ⟨e, e', he, he', heq⟩
  · rw [ho, ho']
    rfl
  · rw [he, he']
    exact congrArg Except.error heq

namespace Registry

variable {r : Registry} {self : Dispatcher} {mode : Mode} {op : Op}

theorem exists_counterparts (hr : r.functions = Registry.empty.functions) (hs : self.Interchanges)
    (hm : mode.Suits op) :
    ∃ k k', r.counterpart self (.byFunction mode op) = .ok k ∧
      r.counterpart self (.byMethod mode op) = .ok k' ∧
      ∀ site args, Dispatched.asMethod (k site args) = Dispatched.asMethod (k' site args) := by
  have hfunction : r.function? op.name = some (operationFunction op) := by
    rw [function?, hr]
    exact function?_empty hm.ne_richcmp
  refine ⟨_, _, ?_, rfl, fun site args => hs.onElements hm.nested r.types site args⟩
  simp only [counterpart, Call.byFunction, hfunction, hm.nested_eq]
  rfl

theorem loopParts_cases (hr : r.functions = Registry.empty.functions) (hs : self.Interchanges)
    (hm : mode.Suits op) (unified : List Value) :
    (∃ cause, r.loopParts self (.byFunction mode op) unified = .error cause ∧
        r.loopParts self (.byMethod mode op) unified = .error cause) ∨
      ∃ k k' lens len, r.loopParts self (.byFunction mode op) unified = .ok (k, lens, len) ∧
        r.loopParts self (.byMethod mode op) unified = .ok (k', lens, len) ∧
        ∀ site args, Dispatched.asMethod (k site args) = Dispatched.asMethod (k' site args) := by
  obtain ⟨k, k', hk, hk', hkk⟩ := exists_counterparts hr hs hm
  rw [loopParts, loopParts, hk, hk']
  cases unified.mapM r.types.operandLength with
  | error cause => exact .inl ⟨cause, rfl, rfl⟩
  | ok lens =>
    dsimp only [bind, Except.bind]
    cases reconcileLengths lens with
    | error cause => exact .inl ⟨cause, rfl, rfl⟩
    | ok len => exact .inr ⟨k, k', lens, len, rfl, rfl, hkk⟩

theorem loopCall_asMethod (hr : r.functions = Registry.empty.functions) (hs : self.Interchanges)
    (hm : mode.Suits op) (held : List Value) (site : Site) (d target : Descriptor)
    (unified operands : List Value) :
    (r.loopCall self (.byFunction mode op) held site d target unified operands).asMethod =
      (r.loopCall self (.byMethod mode op) held site d target unified operands).asMethod := by
  rw [loopCall, loopCall, Call.movable?_byFunction]
  rcases loopParts_cases hr hs hm unified with
    ⟨cause, hparts, hparts'⟩ | ⟨k, k', lens, len, hparts, hparts', hkk⟩
  · rw [hparts, hparts']
  · rw [hparts, hparts']
    dsimp only
    split
    · exact Loop.intoOperand_asMethod (l := ⟨r.types, target, k', _, _⟩) hkk _ _ _ _ _
    · exact Loop.intoNew_asMethod (l := ⟨r.types, target, k', _, _⟩) hkk _ _ _ _ _

theorem arrayCall_asMethod (hr : r.functions = Registry.empty.functions) (hs : self.Interchanges)
    (hm : mode.Suits op) (held : List Value) (site : Site) (d : Descriptor)
    (unified operands : List Value) :
    (r.arrayCall self (.byFunction mode op) held site d unified operands).asMethod =
      (r.arrayCall self (.byMethod mode op) held site d unified operands).asMethod := by
  rw [arrayCall, arrayCall, Call.isUnordered_byFunction, Call.resultType_byFunction]
  split
  · rfl
  · cases r.types.descriptor ((Call.byMethod mode op).resultType d) with
    | error cause => rfl
    | ok target =>
      simp only [Call.op_byFunction, Call.op_byMethod]
      cases d.op op with
      | unsupported => rfl
      | native kernel =>
        have hrun : kernel.run op (Call.byFunction mode op).slot =
            kernel.run op (Call.byMethod mode op).slot :=
          funext (Kernel.run_function op op.name kernel)
        simp only [hrun, Call.movable?_byFunction]
      | generic => exact loopCall_asMethod hr hs hm held site d target unified operands

theorem tensorCall_asMethod (hs : self.Interchanges) (hm : mode.Suits op) (held : List Value)
    (site : Site) (unified operands : List Value) :
    (r.tensorCall self (.byFunction mode op) held site unified operands).asMethod =
      (r.tensorCall self (.byMethod mode op) held site unified operands).asMethod := by
  have hparts : r.tensorParts (.byFunction mode op) site unified =
      r.tensorParts (.byMethod mode op) site unified := rfl
  rw [tensorCall, tensorCall, hparts, Call.movable?_byFunction, Call.resultType_byFunction]
  cases r.tensorParts (.byMethod mode op) site unified with
  | error cause => rfl
  | ok parts =>
    obtain ⟨d, arrays, shape⟩ := parts
    have hresult := congrArg Outcome.result
      (hs mode.nested op hm.nested [] (site.child 3) arrays)
    change Dispatched.asMethod _ = Dispatched.asMethod _ at hresult
    dsimp only [Call.byFunction, Call.byMethod] at hresult ⊢
    rcases Dispatched.cases_of_asMethod_eq hresult with ⟨o, ho, ho'⟩ | ⟨e, e', he, he', heq⟩
    · rw [ho, ho']
    · rw [he, he']
      exact Outcome.asMethod_failed operands heq

theorem resolve_asMethod (hr : r.functions = Registry.empty.functions) (hs : self.Interchanges)
    (hm : mode.Suits op) (held : List Value) (site : Site) (unified operands : List Value) :
    (r.resolve self (.byFunction mode op) held site unified operands).asMethod =
      (r.resolve self (.byMethod mode op) held site unified operands).asMethod := by
  rw [resolve, resolve, Call.representative_byFunction]
  cases (Call.byMethod mode op).representative unified with
  | scalar s => rfl
  | array a =>
    dsimp only
    cases r.types.descriptor a.type with
    | error cause => rfl
    | ok d =>
      dsimp only
      split
      · exact tensorCall_asMethod hs hm held site unified operands
      · exact arrayCall_asMethod hr hs hm held site d unified operands

theorem scalarCall_byFunction (mode : Mode) (op : Op) :
    scalarCall (.byFunction mode op) = scalarCall (.byMethod mode op) := rfl

theorem unified_asMethod (mode : Mode) (op : Op) (site : Site) (operands : List Value) :
    Dispatched.asMethod (r.unified (.byFunction mode op) site operands) =
      Dispatched.asMethod (r.unified (.byMethod mode op) site operands) := by
  rw [unified, unified, Call.mode_byFunction, Call.representative_byFunction]
  split
  · rcases r.unifier r.types (site.child 1) (Call.byMethod mode op).mode operands with
      ⟨e | ⟨⟩, unified⟩
    · refine congrArg Except.error ?_
      rw [DispatchError.asMethod_within, DispatchError.asMethod_within,
        Call.asMethod_frame_byFunction]
    · rfl
  · rfl

theorem frameOf_asMethod (mode : Mode) (op : Op) (unified operands : List Value) :
    (r.frameOf (.byFunction mode op) unified operands).asMethod =
      (r.frameOf (.byMethod mode op) unified operands).asMethod :=
  Call.asMethod_frame_byFunction mode op _

theorem step_interchanges (hr : r.functions = Registry.empty.functions) (hs : self.Interchanges) :
    (r.step self).Interchanges := by
  intro mode op hm held site operands
  by_cases hc : (Call.byMethod mode op).Takes operands.length
  case neg =>
    have hc' : ¬(Call.byFunction mode op).Takes operands.length := fun h =>
      hc ⟨h.pos, h.le_three, h.count⟩
    rw [step_of_not_takes hc, step_of_not_takes hc']
    rfl
  have hc' : (Call.byFunction mode op).Takes operands.length := ⟨hc.pos, hc.le_three, hc.count⟩
  rcases Value.exists_scalars_or_array operands with ⟨ss, rfl⟩ | ⟨a, ha⟩
  · rw [List.length_map] at hc hc'
    rw [step_scalars hc, step_scalars hc', scalarCall_byFunction]
  · rw [step_of_isArray hc ha, step_of_isArray hc' ha]
    rcases Dispatched.cases_of_asMethod_eq (unified_asMethod mode op site operands) with
      ⟨unified, hu, hu'⟩ | ⟨e, e', he, he', heq⟩
    · rw [hu, hu']
      dsimp only
      rw [Outcome.asMethod_within, Outcome.asMethod_within, resolve_asMethod hr hs hm,
        frameOf_asMethod]
    · rw [he, he']
      exact Outcome.asMethod_failed operands heq

theorem applyWithin_interchanges (hr : r.functions = Registry.empty.functions) (n : Nat) :
    (r.applyWithin n).Interchanges := by
  induction n with
  | zero => exact fun _ _ _ _ _ _ => rfl
  | succ n ih => exact step_interchanges hr ih

end Registry

/-- An operation by the function that a registry has for it from the start leads to the same as the
operation by its methods: operands that are not supported, one result, or errors of one cause whose
frames agree once those of functions are read as those of the methods of their operations. The
operands are left alike in all cases. Types, accessors, kernels and the unifier may be any, and so
may the bound on nested calls: accessors can hand out elements that lie deeper than the operands
tell. -/
theorem apply_byFunction {r : Registry} (hr : r.functions = Registry.empty.functions) {mode : Mode}
    {op : Op} (hm : mode.Suits op) (held : List Value) (site : Site) (operands : List Value) :
    (r.apply ⟨mode, op, .function op.name⟩ held site operands).asMethod =
        (r.apply ⟨mode, op, .method⟩ held site operands).asMethod ∧
      ∀ n, (r.applyWithin n ⟨mode, op, .function op.name⟩ held site operands).asMethod =
        (r.applyWithin n ⟨mode, op, .method⟩ held site operands).asMethod := by
  have hbound (n : Nat) := Registry.applyWithin_interchanges hr n mode op hm held site operands
  exact ⟨hbound (r.levels operands), hbound⟩

/-- A division in place that fails at its second position, with the first quotient stored. -/
theorem apply_byFunction_divided :
    let x := Stock.integerArray ⟨[0]⟩ [6, 6, 6]
    let y := Stock.integerArray ⟨[1]⟩ [2, 0, 1]
    let o := Stock.registry.apply ⟨.inPlace, .floordiv, .method⟩ [] ⟨[2]⟩ [x, y]
    let o' := Stock.registry.apply ⟨.inPlace, .floordiv, .function "floordiv"⟩ [] ⟨[2]⟩ [x, y]
    Stock.registry.functions = Registry.empty.functions ∧ Mode.inPlace.Suits .floordiv ∧
      o.result = .error ⟨.kernel .divisionByZero, [.element 1, .method "Int32X" .floordiv]⟩ ∧
      o'.result = .error ⟨.kernel .divisionByZero, [.element 1, .function "floordiv" "Int32X"]⟩ ∧
      o'.operands = [Stock.integerArray ⟨[0]⟩ [3, 6, 6], y] ∧ o'.asMethod = o.asMethod := by
  intro x y o o'
  have hr : Stock.registry.functions = Registry.empty.functions := rfl
  have hm : Mode.inPlace.Suits .floordiv := .inPlace (by decide) (by decide)
  exact ⟨hr, hm, rfl, rfl, rfl, (apply_byFunction hr hm [] ⟨[2]⟩ [x, y]).1⟩

end ArrayDispatch
