import Untagged.Schema

/-!
# Definitions

The definitions that a schema refers to, in order of first use.  A named type is
entered before the types that it uses, and only once, however often it is used.
-/

namespace Untagged

/-- Definitions by name, in the order in which they were entered. -/
abbrev Definitions := List (String × TypeSchema)

namespace TypeSchema

mutual

/-- Enters the definitions that a type needs. -/
def collect : TypeSchema → Definitions → Definitions
  | list item, defs => collect item defs
  | option inner, defs => collect inner defs
  | record _ _ members, defs => collectMembers members defs
  | union _ variants, defs => collectAll variants defs
  | named name body, defs =>
    if (defs.map Prod.fst).contains name then defs else collect body (defs ++ [(name, body)])
  | _, defs => defs

/-- Enters the definitions that the types of some members need. -/
def collectMembers : List (String × Presence × TypeSchema) → Definitions → Definitions
  | [], defs => defs
  | (_, _, schema) :: rest, defs => collectMembers rest (collect schema defs)

/-- Enters the definitions that some types need. -/
def collectAll : List TypeSchema → Definitions → Definitions
  | [], defs => defs
  | schema :: rest, defs => collectAll rest (collect schema defs)

end

end TypeSchema

end Untagged
