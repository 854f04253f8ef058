import SetupScript.Draft.Expansion
import SetupScript.Text.Quoted

/-!
# The registry of macros

The supported macros with their expansions, in the order in which these run. Defaults come first, so
that the declaration they wrap is taken before declarations that stand alone.
-/

namespace SetupScript

/-- A supported macro: what it is for, how it is used, and how its calls are expanded. -/
structure MacroSpec where
  kind : MacroKind
  description : Text
  examples : List Text
  expand : Draft → Outcome

/-- Macros in the order in which their expansions run. -/
abbrev MacroRegistry := List MacroSpec

namespace MacroRegistry

/-- The built-in macros. -/
def builtin : MacroRegistry :=
  [{ kind := .withDefaults
     description := "Merge default values into a props declaration"
     examples := ["const props = withDefaults(defineProps<Props>(), \x7b size: 1 \x7d)"]
     expand := Draft.expandDefaults },
   { kind := .defineProps
     description := "Declare incoming props"
     examples := ["const props = defineProps(['title'])",
       "const \x7b title \x7d = defineProps(\x7b title: String \x7d)",
       "defineProps<\x7b title: string \x7d>()"]
     expand := Draft.expandProps },
   { kind := .defineEmits
     description := "Declare emitted events and bind the emit function"
     examples := ["const emit = defineEmits(['save', 'cancel'])"]
     expand := Draft.expandEmits },
   { kind := .defineExpose
     description := "Expose local bindings to the parent through the context"
     examples := ["defineExpose(\x7b reset \x7d)"]
     expand := Draft.expandExpose }]

/-- The macro's entry. -/
def get? (registry : MacroRegistry) (kind : MacroKind) : Option MacroSpec :=
  registry.find? (·.kind = kind)

/-- Put a macro in: in the place of its earlier entry, or at the end. -/
def insert (registry : MacroRegistry) (spec : MacroSpec) : MacroRegistry :=
  if (registry.get? spec.kind).isSome then
    registry.map fun other => if other.kind = spec.kind then spec else other
  else registry ++ [spec]

/-- Register a macro, provided that it is a supported one. -/
def register (registry : MacroRegistry) (spec : MacroSpec) : Except MacroKind MacroRegistry :=
  if spec.kind.isSupported then .ok (registry.insert spec) else .error spec.kind

end MacroRegistry

/-- The wording when a macro cannot be registered. -/
def MacroKind.notRegistrable (kind : MacroKind) : Text :=
  kind.name ++ " cannot be registered: unsupported macro"

/-- The wording when a name is not that of a macro. -/
def MacroKind.unknownName (name : Text) : Text := Text.quoted name ++ " is not a valid MacroKind"

end SetupScript
