import KnownIssues.Fault
import KnownIssues.Json.Format

/-!
# The registry of rules

Only diagnostics of registered rules are suppressed.  Each registered rule has one descriptor, which
names it and says why its diagnostics are suppressed.  Rules are registered in the order of a list,
each at its first occurrence, and an empty rule id is a fault wherever it stands.  Ids are looked up
exactly, letter case included.
-/

namespace KnownIssues

open Json (Shape Format)

/-- What is said of a rule's suppressed diagnostics. -/
structure Descriptor where
  id : String
  rule : String
  justification : String
  deriving DecidableEq, Repr

/-- The descriptor of a rule. -/
def Descriptor.ofRule (justification rule : String) : Descriptor :=
  ⟨"SLS_" ++ rule, rule, justification⟩

/-- The registered rules, in order. -/
structure Registry where
  descriptors : List Descriptor
  deriving DecidableEq, Repr

namespace Registry

/-- No rules. -/
def empty : Registry :=
  ⟨[]⟩

/-- The descriptor of a rule. -/
def get? (r : Registry) (rule : String) : Option Descriptor :=
  r.descriptors.find? (·.rule == rule)

/-- How many rules there are. -/
def size (r : Registry) : Nat :=
  r.descriptors.length

/-- Adds a rule behind the others, unless it is there. -/
def insert (r : Registry) (justification rule : String) : Registry :=
  if (r.get? rule).isSome then r
  else ⟨r.descriptors ++ [Descriptor.ofRule justification rule]⟩

/-- Registers rules one after another. -/
def insertAll (justification : String) : Registry → List String → Except Fault Registry
  | r, [] => .ok r
  | r, rule :: rules =>
    if rule = "" then .error .emptyRuleId
    else insertAll justification (r.insert justification rule) rules

/-- The registry of a list of rules. -/
def ofRules (justification : String) (rules : List String) : Except Fault Registry :=
  insertAll justification empty rules

end Registry

/-! ### Its configuration -/

/-- How descriptors are worded. -/
structure RegistryConfig where
  justification : String
  deriving DecidableEq, Repr

/-- What is known of a configuration while it is read. -/
structure RegistryConfig.Draft where
  justification : Option String

namespace RegistryConfig

/-- The usual wording. -/
def default : RegistryConfig :=
  ⟨"Issue is suppressed on the server"⟩

/-- The record of a configuration; what is left out is as usual. -/
def shape : Shape Draft RegistryConfig where
  name := "SuppressorConfig"
  fields := [.of "justification" Draft.justification (fun s _ => ⟨some s⟩) .text]
  blank := ⟨none⟩
  build d := .ok ⟨d.justification.getD default.justification⟩

/-- The written form of a configuration. -/
def format : Format RegistryConfig where
  reader := .record shape
  write style level c :=
    style.object level
      [("justification", Format.text.write style (level + 1) c.justification)]

end RegistryConfig

end KnownIssues
