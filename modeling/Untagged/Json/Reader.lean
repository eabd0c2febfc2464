import Untagged.Json.StringReader

/-!
# Reading values

The grammar of JSON over a list of bytes.  `sequence` and `membership` read the
inside of an array and of an object for any reader of what they hold, and `value`
ties the knot: a value at depth `d + 1` may hold values at depth `d`.  At depth 0
a bracket is one level too many.

Repeated names of an object are collected by `Json.collect`.
-/

namespace Untagged.Json.Reader

def isBlank (b : UInt8) : Bool := b = 32 || b = 10 || b = 9 || b = 13

def skipBlanks : Bytes → Bytes
  | [] => []
  | b :: bs => if isBlank b then skipBlanks bs else b :: bs

/-- The rest of a literal name, byte by byte. -/
def keyword : Bytes → Bytes → Except Fault Bytes
  | [], s => .ok s
  | _ :: _, [] => .error (.behind .eofValue [])
  | c :: cs, b :: s => if b = c then keyword cs s else .error (.behind .expectedIdent s)

/-- Marks a fault as lying inside an array or an object. -/
def inContainer {α : Type} (r : Except Fault (Read α)) : Except Fault (Read α) :=
  match r with
  | .ok x => .ok x
  | .error f => .error { f with nested := true }

/-- The items behind the first one of an array, up to its closing bracket. -/
def itemsAfter {α : Type} (item : Bytes → Except Fault (Read α)) :
    Nat → Bytes → Except Fault (Read (List α))
  | 0, _ => .error (.ahead .eofList [])
  | fuel + 1, s =>
    match skipBlanks s with
    | [] => .error (.ahead .eofList [])
    | b :: r =>
      if b = 93 then .ok ([], r)
      else if b = 44 then
        match skipBlanks r with
        | [] => .error (.ahead .eofValue [])
        | c :: t =>
          if c = 93 then .error (.ahead .trailingComma (c :: t))
          else do
            let (x, rest) ← item (c :: t)
            let (xs, rest) ← itemsAfter item fuel rest
            .ok (x :: xs, rest)
      else .error (.ahead .expectedListEnd (b :: r))

/-- The inside of an array, behind its opening bracket. -/
def sequence {α : Type} (item : Bytes → Except Fault (Read α)) (s : Bytes) :
    Except Fault (Read (List α)) :=
  match skipBlanks s with
  | [] => .error (.ahead .eofList [])
  | b :: r =>
    if b = 93 then .ok ([], r)
    else do
      let (x, rest) ← item (b :: r)
      let (xs, rest) ← itemsAfter item rest.length rest
      .ok (x :: xs, rest)

def colon (s : Bytes) : Except Fault Bytes :=
  match skipBlanks s with
  | [] => .error (.ahead .eofObject [])
  | b :: r => if b = 58 then .ok r else .error (.ahead .expectedColon (b :: r))

/-- A member of an object, behind the opening quote of its name. -/
def member {α : Type} (item : Bytes → Except Fault (Read α)) (s : Bytes) :
    Except Fault (Read (String × α)) := do
  let (name, rest) ← string s
  let rest ← colon rest
  let (x, rest) ← item rest
  .ok ((name, x), rest)

/-- The members behind the first one of an object, up to its closing brace. -/
def membersAfter {α : Type} (item : Bytes → Except Fault (Read α)) :
    Nat → Bytes → Except Fault (Read (List (String × α)))
  | 0, _ => .error (.ahead .eofObject [])
  | fuel + 1, s =>
    match skipBlanks s with
    | [] => .error (.ahead .eofObject [])
    | b :: r =>
      if b = 125 then .ok ([], r)
      else if b = 44 then
        match skipBlanks r with
        | [] => .error (.ahead .eofValue [])
        | c :: t =>
          if c = 34 then do
            let (m, rest) ← member item t
            let (ms, rest) ← membersAfter item fuel rest
            .ok (m :: ms, rest)
          else if c = 125 then .error (.ahead .trailingComma (c :: t))
          else .error (.ahead .keyNotString (c :: t))
      else .error (.ahead .expectedObjectEnd (b :: r))

/-- The inside of an object, behind its opening brace. -/
def membership {α : Type} (item : Bytes → Except Fault (Read α)) (s : Bytes) :
    Except Fault (Read (List (String × α))) :=
  match skipBlanks s with
  | [] => .error (.ahead .eofObject [])
  | b :: r =>
    if b = 125 then .ok ([], r)
    else if b = 34 then do
      let (m, rest) ← member item r
      let (ms, rest) ← membersAfter item rest.length rest
      .ok (m :: ms, rest)
    else .error (.ahead .keyNotString (b :: r))

/-- A value, where `inner` reads the values it holds; without it no value may hold
any. -/
def valueOver (inner : Option (Bytes → Except Fault (Read Json))) (s : Bytes) :
    Except Fault (Read Json) :=
  match skipBlanks s with
  | [] => .error (.ahead .eofValue [])
  | b :: r =>
    if b = 110 then do .ok (null, ← keyword [117, 108, 108] r)
    else if b = 116 then do .ok (boolean true, ← keyword [114, 117, 101] r)
    else if b = 102 then do .ok (boolean false, ← keyword [97, 108, 115, 101] r)
    else if b = 45 then do
      let (n, rest) ← Reader.number true r
      .ok (.number n, rest)
    else if isDigit b then do
      let (n, rest) ← Reader.number false (b :: r)
      .ok (.number n, rest)
    else if b = 34 then do
      let (text, rest) ← Reader.string r
      .ok (.string text, rest)
    else if b = 91 then
      match inner with
      | none => .error (.ahead .tooDeep (b :: r))
      | some item => do
        let (items, rest) ← inContainer (sequence item r)
        .ok (array items, rest)
    else if b = 123 then
      match inner with
      | none => .error (.ahead .tooDeep (b :: r))
      | some item => do
        let (pairs, rest) ← inContainer (membership item r)
        .ok (object (collect pairs), rest)
    else .error (.ahead .expectedValue (b :: r))

/-- A value that holds at most `depth` levels of arrays and objects. -/
def value : Nat → Bytes → Except Fault (Read Json)
  | 0 => valueOver none
  | depth + 1 => valueOver (some (value depth))

/-- How many levels of arrays and objects a document may have. -/
def maxDepth : Nat := 127

/-- What follows a complete document is white space. -/
def finish {α : Type} (x : α) (s : Bytes) : Except Fault α :=
  match skipBlanks s with
  | [] => .ok x
  | b :: r => .error (.ahead .trailingCharacters (b :: r))

/-- A document of at most `depth` levels: one value and white space around it. -/
def documentWithin (depth : Nat) (s : Bytes) : Except Fault Json := do
  let (v, rest) ← value depth s
  finish v rest

def document (s : Bytes) : Except Fault Json := documentWithin maxDepth s

end Untagged.Json.Reader
