import Omp2.Types.Ids

/-!
# Errors of tools

The errors of `omp-tools/src/definition.rs` that the modelled tools make.
-/

namespace Omp2.Tools

open Omp2.Json

/-- `ToolError`, as far as the modelled tools fail. -/
inductive ToolError where
  | validation (message : String)
  | validationWith (message : String) (details : Value)
  | execution (message : String)
  | notFound (message : String)

end Omp2.Tools
