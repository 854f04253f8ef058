import SetupScript.Text.Basic

/-!
# Compile-time macros

The closed set of macros that a setup script may call. Four are expanded; the other three are
recognised only to be refused, so that a full compiler can take over.
-/

namespace SetupScript

/-- A compile-time macro. -/
inductive MacroKind where
  | defineProps
  | defineEmits
  | withDefaults
  | defineExpose
  | defineModel
  | defineSlots
  | defineOptions
  deriving DecidableEq

namespace MacroKind

/-- Every macro, in the order in which a script is checked for them. -/
def all : List MacroKind :=
  [defineProps, defineEmits, withDefaults, defineExpose, defineModel, defineSlots, defineOptions]

/-- The name under which a script calls the macro. -/
def name : MacroKind → Text
  | defineProps => "defineProps"
  | defineEmits => "defineEmits"
  | withDefaults => "withDefaults"
  | defineExpose => "defineExpose"
  | defineModel => "defineModel"
  | defineSlots => "defineSlots"
  | defineOptions => "defineOptions"

/-- The macro is expanded here rather than left to a full compiler. -/
def isSupported : MacroKind → Bool
  | defineProps | defineEmits | withDefaults | defineExpose => true
  | defineModel | defineSlots | defineOptions => false

/-- The macro of this name. -/
def ofName? (t : Text) : Option MacroKind := all.find? (·.name == t)

end MacroKind

end SetupScript
