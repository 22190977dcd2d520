import ArrayDispatch.Dispatch.Apply
import ArrayDispatch.Error.Message
import ArrayDispatch.Proofs.Binary.Widening
import ArrayDispatch.Proofs.Dispatch.Elementwise
import ArrayDispatch.Proofs.Dispatch.Failure
import ArrayDispatch.Proofs.Dispatch.Frame
import ArrayDispatch.Proofs.Dispatch.Native
import ArrayDispatch.Proofs.Dispatch.Ownership
import ArrayDispatch.Proofs.Dispatch.TensorElementwise
import ArrayDispatch.Proofs.Stock.Native
import ArrayDispatch.Proofs.Stock.Ownership
import ArrayDispatch.Proofs.Stock.Session
import ArrayDispatch.Proofs.Types.Evaluation
import ArrayDispatch.Proofs.Types.Making
import ArrayDispatch.Proofs.Types.Retable
import ArrayDispatch.Proofs.Types.TensorConversion
import ArrayDispatch.Proofs.Value.Made
import ArrayDispatch.Stock
import ArrayDispatch.Tree.Pair
import ArrayDispatch.Tree.Text
import ArrayDispatch.Tree.Transform
import ArrayDispatch.Tree.Traverse
import ArrayDispatch.Proofs.Tree.Leaves
import ArrayDispatch.Proofs.Tree.Traverse
import ArrayDispatch.Proofs.Tree.Outline
import ArrayDispatch.Proofs.Tree.Pair
import ArrayDispatch.Proofs.Tree.Refill
import ArrayDispatch.Proofs.Tree.Transform
import ArrayDispatch.Proofs.Dispatch.NamedFunction
import ArrayDispatch.Proofs.Dispatch.ErrorTrail
import ArrayDispatch.Proofs.Dispatch.Representative
import ArrayDispatch.Proofs.Dispatch.Guard
import ArrayDispatch.Proofs.Dispatch.Unsupported
import ArrayDispatch.Proofs.Dispatch.Mismatched
import ArrayDispatch.Proofs.Shape.Agreement
import ArrayDispatch.Proofs.Dispatch.Expansion
import ArrayDispatch.Proofs.Types.Order
import ArrayDispatch.Proofs.Types.Catalogue
import ArrayDispatch.Proofs.Dispatch.Nesting
import ArrayDispatch.Proofs.Dispatch.Depth
import ArrayDispatch.Proofs.Dispatch.Promotion
import ArrayDispatch.Proofs.Types.LeafConversion
import ArrayDispatch.Proofs.Dispatch.Selection
import ArrayDispatch.Proofs.Dispatch.Commutation
import ArrayDispatch.Proofs.Scalar.Arithmetic
import ArrayDispatch.Proofs.Scalar.Division
import ArrayDispatch.Proofs.Scalar.Shift
import ArrayDispatch.Proofs.Binary.Value
import ArrayDispatch.Proofs.Value.Truncation
import ArrayDispatch.Proofs.Value.StoredCast
import ArrayDispatch.Proofs.Stock.Sizes
import ArrayDispatch.Proofs.Stock.Arity
import ArrayDispatch.Proofs.Tree.Handout
