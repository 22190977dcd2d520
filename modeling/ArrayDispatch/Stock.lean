import ArrayDispatch.Dispatch.Registry

/-!
The stock types. Float arrays have kernels for arithmetic and comparisons, boolean arrays for
logic; boolean arrays do not support arithmetic, and everything else goes through the generic loop.
-/

namespace ArrayDispatch.Stock

def boolX : TypeKey := ⟨0⟩
def int32X : TypeKey := ⟨1⟩
def int64X : TypeKey := ⟨2⟩
def uint32X : TypeKey := ⟨3⟩
def float32X : TypeKey := ⟨4⟩
def float64X : TypeKey := ⟨5⟩
def array3b : TypeKey := ⟨6⟩
def array3f : TypeKey := ⟨7⟩
def array3bX : TypeKey := ⟨8⟩
def array3fX : TypeKey := ⟨9⟩
def tensorXb : TypeKey := ⟨10⟩
def tensorXi : TypeKey := ⟨11⟩
def tensorXf : TypeKey := ⟨12⟩
def complex2f : TypeKey := ⟨13⟩

/-- Operations that make no sense on masks. -/
def unsupportedOnMasks : List Op :=
  [.neg, .abs, .sqrt, .rcp, .rsqrt, .cbrt, .exp, .exp2, .log, .log2, .sin, .cos, .sincos, .tan,
    .asin, .acos, .atan, .sinh, .cosh, .sincosh, .tanh, .asinh, .acosh, .atanh, .erf, .add, .sub,
    .mul, .truediv, .floordiv, .mod, .lshift, .rshift, .atan2, .fma]

def floatKernels : List (Op × Kernel) :=
  [(.neg, .neg), (.abs, .abs), (.sqrt, .sqrt), (.add, .add), (.sub, .sub), (.mul, .mul),
    (.minimum, .minimum), (.maximum, .maximum), (.fma, .fma), (.richcmp, .richCompare)]

def boolKernels : List (Op × Kernel) := [(.and, .and), (.or, .or), (.xor, .xor)]

def masks : TypeDecl :=
  ((TypeDecl.flat "BoolX" .bool .dynamic).withOps unsupportedOnMasks .unsupported).withKernels
    boolKernels

def floats (name : String) (f : Format) : TypeDecl :=
  ((TypeDecl.flat name (.float f) .dynamic).withMask boolX).withKernels floatKernels

def integers (name : String) (t : IntType) : TypeDecl :=
  (TypeDecl.flat name (.integer t) .dynamic).withMask boolX

/-- Complex numbers as pairs `[re, im]`. -/
def complexes : TypeDecl :=
  (((TypeDecl.flat "Complex2f" (.float .single) (.fixed 2)).withMask boolX).withFlags
    { TypeFlags.none with isComplex := true }).withKernels [(.mul, .mulPair)]

/-- Declarations of the stock types in order of their keys. -/
def declarations : List TypeDecl :=
  [masks, integers "Int32X" .int32, integers "Int64X" .int64, integers "UInt32X" .uint32,
    floats "Float32X" .single, floats "Float64X" .double,
    .flat "Array3b" .bool (.fixed 3),
    (TypeDecl.flat "Array3f" (.float .single) (.fixed 3)).withMask array3b,
    .nested "Array3bX" boolX (.fixed 3),
    (TypeDecl.nested "Array3fX" float32X (.fixed 3)).withMask array3bX,
    .tensor "TensorXb" boolX,
    (TypeDecl.tensor "TensorXi" int32X).withMask tensorXb,
    (TypeDecl.tensor "TensorXf" float32X).withMask tensorXb,
    complexes]

def registerAll (r : Registry) (ds : List TypeDecl) : Attempt Registry :=
  ds.foldlM (fun r d => (r.register d).map Prod.fst) r

def registry : Registry := (registerAll .empty declarations).toOption.getD .empty

theorem registerAll_declarations : registerAll .empty declarations = .ok registry := rfl

end ArrayDispatch.Stock
