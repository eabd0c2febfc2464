import Untagged.Event
import Untagged.Text.Split

/-!
# Log filters

A filter is a list of directives, separated by commas.  A directive may name an
area, which stands for every area whose name starts so, a field that an event must
have, and the least important level that is let through.  Of the directives that
concern an event the most specific one decides: the one with the longest area, then
one with a field, and of equals the last.

A directive for a span lets no event of this program through, because its events
are told outside of spans.
-/

namespace Untagged

/-- The levels a directive lets through: all down to this one, or none. -/
abbrev Threshold := Option Level

namespace Threshold

def admits (t : Threshold) (l : Level) : Bool :=
  match t with
  | some least => l.rank ≤ least.rank
  | none => false

/-- The threshold with a number: 0 lets nothing through, 5 everything. -/
def ofNumber? : Nat → Option Threshold
  | 0 => some none
  | 1 => some (some .error)
  | 2 => some (some .warn)
  | 3 => some (some .info)
  | 4 => some (some .debug)
  | 5 => some (some .trace)
  | _ => none

/-- The number that decimal digits stand for; a plus sign may precede them. -/
def number? (cs : List Char) : Option Nat :=
  let digits :=
    match cs with
    | '+' :: rest => rest
    | rest => rest
  if digits.isEmpty || !digits.all Char.isDigit then none
  else some (digits.foldl (fun n c => 10 * n + (c.toNat - 48)) 0)

/-- The threshold with a name, in any case. -/
def ofName? (cs : List Char) : Option Threshold :=
  match String.ofList (cs.map Char.toLower) with
  | "off" => some none
  | "error" => some (some .error)
  | "warn" => some (some .warn)
  | "info" => some (some .info)
  | "debug" => some (some .debug)
  | "trace" => some (some .trace)
  | _ => none

/-- The threshold that a text means. -/
def ofText? (cs : List Char) : Option Threshold :=
  match (number? cs).bind ofNumber? with
  | some t => some t
  | none => ofName? cs

end Threshold

/-- One directive of a filter. -/
structure Directive where
  area : Option String := none
  field : Option String := none
  threshold : Threshold := some .trace
  /-- Whether the directive concerns spans only. -/
  spans : Bool := false
  deriving DecidableEq, Repr

namespace Directive

/-- Whether a directive concerns an event.  Every event has a message. -/
def concerns (d : Directive) (e : Event) : Bool :=
  !d.spans
    && d.area.all (fun a => a.toList.isPrefixOf e.area.toList)
    && d.field.all (fun f => f = "message" || (e.fields.map Prod.fst).contains f)

/-- How specific the area of a directive is. -/
def areaSize (d : Directive) : Nat := d.area.elim 0 fun a => a.utf8ByteSize + 1

/-- Whether the first field is more specific than the second. -/
def fieldExceeds : Option String → Option String → Bool
  | some f, some g => g < f
  | some _, none => true
  | none, _ => false

/-- Whether a directive is more specific than another that concerns the same event. -/
def exceeds (d e : Directive) : Bool :=
  e.areaSize < d.areaSize || (e.areaSize = d.areaSize && fieldExceeds d.field e.field)

/-- Whether a character may start a directive that names an area or a level.  Characters
beyond ASCII count as letters. -/
def isStart (c : Char) : Bool :=
  c.isAlphanum || c = '-' || c = ':' || c = '_' || 128 ≤ c.toNat

/-- Splits before the first character of which `stop` is true. -/
def upTo (stop : Char → Bool) (cs : List Char) : List Char × List Char :=
  cs.span fun c => !stop c

/-- The level behind an equals sign; none at all is the least important one. -/
def ofLevel? (d : Directive) (cs : List Char) : Option Directive :=
  if cs.isEmpty then some d else (Threshold.ofText? cs).map fun t => { d with threshold := t }

/-- What follows a closing bracket. -/
def afterBracket? (d : Directive) (cs : List Char) : Option Directive :=
  match cs with
  | '=' :: level => ofLevel? d level
  | rest => if rest.all Char.isWhitespace then some d else none

/-- The field between braces, and the closing bracket behind them.  A field with a value
concerns spans only. -/
def ofField? (d : Directive) (cs : List Char) : Option Directive :=
  match upTo (· = '\x7d') cs with
  | (field, '\x7d' :: ']' :: rest) =>
    let (name, value) := upTo (· = '=') field
    if field.isEmpty then none
    else
      afterBracket?
        { d with field := some (String.ofList name), spans := d.spans || !value.isEmpty } rest
  | _ => none

/-- What follows an opening bracket: the name of a span, and a field. -/
def ofSpan? (d : Directive) (cs : List Char) : Option Directive :=
  match upTo (fun c => c = ']' || c = '\x7b') cs with
  | (_, ']' :: rest) => afterBracket? { d with spans := true } rest
  | (span, '\x7b' :: rest) => ofField? { d with spans := !span.isEmpty } rest
  | _ => none

/-- A directive that does not start with white space. -/
def ofChars? (cs : List Char) : Option Directive :=
  match cs with
  | [] => none
  | '[' :: rest => ofSpan? {} rest
  | c :: _ =>
    if isStart c then
      match upTo (fun c => c = '=' || c = '[') cs with
      | (area, '=' :: level) => ofLevel? { area := some (String.ofList area) } level
      | (area, '[' :: rest) => ofSpan? { area := some (String.ofList area) } rest
      | (word, _) =>
        match Threshold.ofText? word with
        | some t => some { threshold := t }
        | none => some { area := some (String.ofList word) }
    else none

/-- Whether a directive sets a level behind an equals sign, outside of braces and the
name of a span. -/
def setsLevel (cs : List Char) : Bool :=
  let (before, rest) := upTo (fun c => c = '=' || c = '[') cs
  match rest with
  | '=' :: _ => true
  | _ => before.length < cs.length && ((cs.reverse.takeWhile (· ≠ ']')).contains '=')

/-- A directive.  White space belongs to the name or level it stands beside, so one that
starts with white space concerns nothing, and cannot set a level. -/
def ofText? (cs : List Char) : Option Directive :=
  match cs with
  | [] => none
  | c :: _ =>
    if c.isWhitespace then
      let inner := cs.dropWhile Char.isWhitespace
      if setsLevel inner then none else (ofChars? inner).map fun d => { d with spans := true }
    else ofChars? cs

end Directive

/-- A filter of events. -/
structure LogFilter where
  directives : List Directive
  deriving DecidableEq, Repr

namespace LogFilter

/-- The filter that a text means. -/
def ofText? (text : String) : Option LogFilter := do
  let parts := (Text.splitChars ',' text.toList).filter fun p => !p.isEmpty
  some ⟨← parts.mapM Directive.ofText?⟩

/-- The filter that lets everything through down to `info`. -/
def default : LogFilter := ⟨[{ threshold := some .info }]⟩

/-- The directive that decides on an event. -/
def deciding? (f : LogFilter) (e : Event) : Option Directive :=
  (f.directives.filter (·.concerns e)).foldl
    (fun best d =>
      match best with
      | some b => if b.exceeds d then some b else some d
      | none => some d)
    none

/-- Whether an event is let through. -/
def admits (f : LogFilter) (e : Event) : Bool :=
  match f.deciding? e with
  | some d => d.threshold.admits e.level
  | none => false

/-- The filter in use: the one of the environment, then the configured one, then the
default.  One that means nothing is passed over. -/
def choose (environment : Option String) (configured : String) : LogFilter :=
  match environment.bind ofText? with
  | some f => f
  | none => (ofText? configured).getD default

/-- The lines of a log that a filter lets through. -/
def lines (f : LogFilter) (log : List Event) : String :=
  String.join ((log.filter f.admits).map fun e => e.line ++ "\n")

end LogFilter

end Untagged
