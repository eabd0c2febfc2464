import Untagged.Config
import Untagged.Toml.Reader

/-!
# Configurations in TOML

A section is a table.  It may also be an array with its fields in order, whose
further items do not matter, or a moment, which has no fields.  Members that are no
fields do not matter either, but their numbers must fit the machine.
-/

namespace Untagged

namespace Toml

/-- Whether a value can be a section with the given fields. -/
def isSection (names : List String) : Toml → Bool
  | table _ ms => membersHeld (ms.filter fun m => !names.contains m.1)
  | array _ _ | moment => true
  | _ => false

/-- The field of a section, by its position and its name. -/
def field? (position : Nat) (name : String) : Toml → Option Toml
  | table _ ms => lookup? name ms
  | array _ items => items[position]?
  | _ => none

end Toml

/-- The output section of a value. -/
def OutputConfig.ofToml? (v : Toml) : Option OutputConfig :=
  if v.isSection ["pretty"] then
    match v.field? 0 "pretty" with
    | none => some {}
    | some (.boolean b) => some ⟨b⟩
    | some _ => none
  else none

/-- The logging section of a value. -/
def LoggingConfig.ofToml? (v : Toml) : Option LoggingConfig :=
  if v.isSection ["filter"] then
    match v.field? 0 "filter" with
    | none => some {}
    | some (.string s) => some ⟨s⟩
    | some _ => none
  else none

namespace Config

/-- The configuration of a value. -/
def ofToml? (v : Toml) : Option Config :=
  if v.isSection ["output", "logging"] then do
    let output ← (v.field? 0 "output").elim (some {}) OutputConfig.ofToml?
    let logging ← (v.field? 1 "logging").elim (some {}) LoggingConfig.ofToml?
    some ⟨output, logging⟩
  else none

/-- The configuration of a TOML text. -/
def ofTomlText? (text : String) : Option Config := (Toml.ofText? text).bind ofToml?

end Config

end Untagged
