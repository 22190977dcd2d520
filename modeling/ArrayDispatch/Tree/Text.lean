import ArrayDispatch.Text.Quoted
import ArrayDispatch.Text.Series
import ArrayDispatch.Tree.Basic
import ArrayDispatch.Value.Text

/-!
Text of trees, which shows their structure and the text of their values.
-/

namespace ArrayDispatch

def Manifest.text (m : Manifest) : String :=
  let field := fun (n, t) => "(" ++ Quoted.quote n ++ ", " ++ Quoted.quote t ++ ")"
  "FieldManifest \x7b type_name: " ++ Quoted.quote m.typeName ++ ", fields: " ++
    bracketed (m.fields.map field) ++ " \x7d"

namespace Tree

variable {ι : Type} [ForeignTypes ι]

mutual

def text : Tree ι → String
  | .value v => "Value(" ++ v.text ++ ")"
  | .list items => "List(" ++ bracketed (texts items) ++ ")"
  | .tuple items => "Tuple(" ++ bracketed (texts items) ++ ")"
  | .map entries => "Map(\x7b" ++ ", ".intercalate (entryTexts entries) ++ "\x7d)"
  | .record m values =>
    "Record(Record \x7b manifest: " ++ m.text ++ ", values: " ++ bracketed (texts values) ++
      " \x7d)"
  | .foreign x => "Opaque(" ++ x.text ++ ")"
  | .empty => "Empty"

def texts : List (Tree ι) → List String
  | [] => []
  | t :: ts => t.text :: texts ts

def entryTexts : List (String × Tree ι) → List String
  | [] => []
  | (k, t) :: rest => (Quoted.quote k ++ ": " ++ t.text) :: entryTexts rest

end

end Tree

end ArrayDispatch
