import ArrayDispatch.Value.Basic

/-!
Kernels: implementations of operations on whole arrays. The stock ones work on flat float and
boolean arrays and repeat arrays of length 1.
-/

namespace ArrayDispatch

/-- Implementation of an operation on whole payloads, by its number of operands. -/
inductive Kernel where
  | unary (run : Payload → Attempt Payload)
  | binary (run : Payload → Payload → Attempt Payload)
  | ternary (run : Payload → Payload → Payload → Attempt Payload)
  | compare (run : Comparison → Payload → Payload → Attempt Payload)

namespace Kernel

def arity : Kernel → Nat
  | unary _ => 1
  | binary _ | compare _ => 2
  | ternary _ => 3

/-- Runs a kernel on the operands of a call, whose number and selector must fit. -/
def run (op : Op) (slot : Slot) (kernel : Kernel) (args : List Payload) : Attempt Payload :=
  match kernel, args, slot with
  | .unary k, [a], _ => k a
  | .binary k, [a, b], _ => k a b
  | .ternary k, [a, b, c], _ => k a b c
  | .compare k, [a, b], .compare cmp => k cmp a b
  | kernel, args, _ => throw (.arity op kernel.arity args.length)

/-- A list of one element repeats it `n` times; any other is left alone. -/
def stretch {α : Type} (n : Nat) : List α → List α
  | [x] => List.replicate n x
  | xs => xs

/-- Applies `f` position by position, a list of one element to every position of the other. -/
def zipMap {α β γ : Type} (f : α → β → γ) (xs : List α) (ys : List β) : Attempt (List γ) :=
  let n := max xs.length ys.length
  if [xs.length, ys.length].all fun len => len == 1 || len == n then
    pure (List.zipWith f (stretch n xs) (stretch n ys))
  else throw (.sizes [xs.length, ys.length])

/-- The kernel of this name is not made for these operands. -/
def unsupported {α : Type} (name : String) (args : List Payload) : Attempt α :=
  throw (.kernel (.unsupported name (args.map Payload.kind?)))

def floatUnary (name : String) (f : {p : Format} → Binary p → Binary p) (a : Payload) :
    Attempt Payload :=
  match a with
  | .flat ⟨.float p, xs⟩ => pure (.flat ⟨.float p, xs.map f⟩)
  | _ => unsupported name [a]

def floatBinary (name : String) (f : {p : Format} → Binary p → Binary p → Binary p)
    (a b : Payload) : Attempt Payload :=
  match a, b with
  | .flat ⟨.float .single, xs⟩, .flat ⟨.float .single, ys⟩ =>
    (zipMap f xs ys).map fun zs => .flat ⟨.float .single, zs⟩
  | .flat ⟨.float .double, xs⟩, .flat ⟨.float .double, ys⟩ =>
    (zipMap f xs ys).map fun zs => .flat ⟨.float .double, zs⟩
  | _, _ => unsupported name [a, b]

def boolBinary (name : String) (f : Bool → Bool → Bool) (a b : Payload) : Attempt Payload :=
  match a, b with
  | .flat ⟨.bool, xs⟩, .flat ⟨.bool, ys⟩ => (zipMap f xs ys).map fun zs => .flat ⟨.bool, zs⟩
  | _, _ => unsupported name [a, b]

/-- `a * b + c` on one format: the factors are paired first, then the pairs meet the summands. -/
def fmaOn {p : Format} (xs ys zs : List (Binary p)) : Attempt Payload := do
  let pairs ← zipMap (fun x y => (x, y)) xs ys
  let sums ← zipMap (fun (xy : Binary p × Binary p) z => xy.1.fma xy.2 z) pairs zs
  pure (.flat ⟨.float p, sums⟩)

def floatFma (a b c : Payload) : Attempt Payload :=
  match a, b, c with
  | .flat ⟨.float .single, xs⟩, .flat ⟨.float .single, ys⟩, .flat ⟨.float .single, zs⟩ =>
    fmaOn xs ys zs
  | .flat ⟨.float .double, xs⟩, .flat ⟨.float .double, ys⟩, .flat ⟨.float .double, zs⟩ =>
    fmaOn xs ys zs
  | _, _, _ => unsupported "fma" [a, b, c]

/-- Comparison of float arrays into a buffer of booleans. -/
def floatCompare (cmp : Comparison) (a b : Payload) : Attempt Payload :=
  match a, b with
  | .flat ⟨.float .single, xs⟩, .flat ⟨.float .single, ys⟩ =>
    (zipMap (fun x y => cmp.holds (x.compare? y)) xs ys).map fun zs => .flat ⟨.bool, zs⟩
  | .flat ⟨.float .double, xs⟩, .flat ⟨.float .double, ys⟩ =>
    (zipMap (fun x y => cmp.holds (x.compare? y)) xs ys).map fun zs => .flat ⟨.bool, zs⟩
  | _, _ => unsupported "compare" [a, b]

/-- `(a + bi)(c + di)` on pairs `[re, im]` of single precision. -/
def complexMul (a b : Payload) : Attempt Payload :=
  match a, b with
  | .flat ⟨.float .single, [ar, ai]⟩, .flat ⟨.float .single, [br, bi]⟩ =>
    pure (.flat ⟨.float .single,
      [(ar.mul br).sub (ai.mul bi), (ar.mul bi).add (ai.mul br)]⟩)
  | _, _ => throw (.kernel (.complexLengths a.length b.length))

/-! ## The stock kernels -/

def neg : Kernel := .unary (floatUnary "neg" Binary.neg)
def abs : Kernel := .unary (floatUnary "abs" Binary.abs)
def sqrt : Kernel := .unary (floatUnary "sqrt" Binary.sqrt)
def add : Kernel := .binary (floatBinary "add" Binary.add)
def sub : Kernel := .binary (floatBinary "sub" Binary.sub)
def mul : Kernel := .binary (floatBinary "mul" Binary.mul)
def minimum : Kernel := .binary (floatBinary "minimum" Binary.minimum)
def maximum : Kernel := .binary (floatBinary "maximum" Binary.maximum)
def and : Kernel := .binary (boolBinary "and" Bool.and)
def or : Kernel := .binary (boolBinary "or" Bool.or)
def xor : Kernel := .binary (boolBinary "xor" Bool.xor)
def fma : Kernel := .ternary floatFma
def richCompare : Kernel := .compare floatCompare
def mulPair : Kernel := .binary complexMul

end Kernel

end ArrayDispatch
