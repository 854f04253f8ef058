import SetupScript.Compile
import SetupScript.Component.EsModule
import SetupScript.Component.Sections

/-!
# Scripts of a component

A setup script is compiled; a plain script only has its module syntax replaced.
-/

namespace SetupScript

/-- The module text of a script block. -/
def ScriptBlock.compile {m : Type → Type} [Monad m] {ε φ : Type} (block : ScriptBlock)
    (settings : Settings) (given : Option (Options ε)) (fallback : Option (FullCompiler m ε φ)) :
    m (ScriptResult φ) := do
  if block.isSetup then
    let result ← compileWithFallback settings block.content given fallback
    return { result with
      journal := ⟨2, "Setup script: compiling with mini compiler"⟩ :: result.journal }
  else
    return {
      value := .ok (EsModule.toRequire settings block.content)
      journal := [⟨2, "Plain script: rewriting ES-module syntax"⟩] }

end SetupScript
