import Untagged.Proofs.Json.Collected
import Untagged.Proofs.Json.IntegerLiteral

/-!
# Values as they are spelled

A value of a document keeps its spelling apart here: a `Literal` is a value with the
bytes it was read from, without the white space in front.  The items of an array and
the members of an object are listed with their spellings (`ArrayText`, `MembersText`).
Without them these are the array and the object that the document is
(`ofText_array_iff`, `objectText_iff_membersText`), so how an item is spelled can be
asked of a document that was read.
-/

namespace Untagged.Json.Reader

variable {α β : Type}

/-! ## Items read in another form -/

/-- `item` returns what `item'` returns, in another form. -/
def ReadsAs (f : β → α) (item : Bytes → Except Fault (Read α))
    (item' : Bytes → Except Fault (Read β)) : Prop :=
  ∀ s x rest, item s = .ok (x, rest) ↔ ∃ y, item' s = .ok (y, rest) ∧ x = f y

theorem ReadsAs.listed_iff {f : β → α} {item : Bytes → Except Fault (Read α)}
    {item' : Bytes → Except Fault (Read β)} (h : ReadsAs f item item') {xs : List α}
    {s t : Bytes} : Listed item xs s t ↔ ∃ ys, Listed item' ys s t ∧ xs = ys.map f := by
  constructor
  · intro hlisted
    induction hlisted with
    | last hx =>
      obtain ⟨y, hy, rfl⟩ := (h _ _ _).mp hx
      exact ⟨[y], .last hy, rfl⟩
    | more hx hcomma hnext hc _ ih =>
      obtain ⟨y, hy, rfl⟩ := (h _ _ _).mp hx
      obtain ⟨ys, hys, rfl⟩ := ih
      exact ⟨y :: ys, .more hy hcomma hnext hc hys, rfl⟩
  · intro hlisted
    obtain ⟨ys, hys, rfl⟩ := hlisted
    induction hys with
    | last hy => exact .last ((h _ _ _).mpr ⟨_, hy, rfl⟩)
    | more hy hcomma hnext hc _ ih => exact .more ((h _ _ _).mpr ⟨_, hy, rfl⟩) hcomma hnext hc ih

/-- Names stay as they are where the values of members take another form. -/
theorem ReadsAs.entry {f : β → α} {item : Bytes → Except Fault (Read α)}
    {item' : Bytes → Except Fault (Read β)} (h : ReadsAs f item item') :
    ReadsAs (fun m : String × β => (m.1, f m.2)) (entry item) (entry item') := by
  intro s m rest
  rw [entry_eq_ok_iff]
  constructor
  · intro hm
    obtain ⟨r, rfl, hm⟩ := hm
    simp only [member, bind_eq_ok] at hm
    obtain ⟨⟨name, t⟩, hname, u, hcolon, ⟨x, w⟩, hx, hm⟩ := hm
    cases hm
    obtain ⟨y, hy, rfl⟩ := (h _ _ _).mp hx
    refine ⟨(name, y), entry_eq_ok_iff.mpr ⟨r, rfl, ?_⟩, rfl⟩
    simp only [member, bind_eq_ok]
    exact ⟨_, hname, u, hcolon, _, hy, rfl⟩
  · intro hm
    obtain ⟨m', hm', rfl⟩ := hm
    obtain ⟨r, rfl, hmember⟩ := entry_eq_ok_iff.mp hm'
    simp only [member, bind_eq_ok] at hmember
    obtain ⟨⟨name, t⟩, hname, u, hcolon, ⟨y, w⟩, hy, hmember⟩ := hmember
    cases hmember
    refine ⟨r, rfl, ?_⟩
    simp only [member, bind_eq_ok]
    exact ⟨_, hname, u, hcolon, _, (h _ _ _).mpr ⟨y, hy, rfl⟩, rfl⟩

/-- What is listed was read somewhere. -/
theorem Listed.exists_read {item : Bytes → Except Fault (Read α)} {xs : List α} {s t : Bytes}
    (h : Listed item xs s t) : ∀ x ∈ xs, ∃ s' rest, item s' = .ok (x, rest) := by
  induction h with
  | last hx => exact List.forall_mem_singleton.mpr ⟨_, _, hx⟩
  | more hx _ _ _ _ ih => exact List.forall_mem_cons.mpr ⟨⟨_, _, hx⟩, ih⟩

/-! ## Literals -/

/-- A value and the bytes that spell it. -/
structure Literal where
  bytes : Bytes
  value : Json

/-- Reads a value together with its spelling. -/
def literal (levels : Nat) (s : Bytes) : Except Fault (Read Literal) := do
  let (v, rest) ← value levels s
  let start := skipBlanks s
  .ok (⟨start.take (start.length - rest.length), v⟩, rest)

theorem literal_eq_ok_iff {levels : Nat} {s rest : Bytes} {e : Literal} :
    literal levels s = .ok (e, rest) ↔
      value levels s = .ok (e.value, rest) ∧ skipBlanks s = e.bytes ++ rest := by
  simp only [literal, bind_eq_ok]
  constructor
  · intro h
    obtain ⟨⟨v, t⟩, hv, h⟩ := h
    cases h
    have hskipped : value levels (skipBlanks s) = .ok (v, t) := by rw [value_skipBlanks, hv]
    obtain ⟨p, hp, -⟩ := value_passes hskipped
    refine ⟨hv, ?_⟩
    rw [hp, List.length_append, Nat.add_sub_cancel, List.take_left]
  · intro h
    obtain ⟨hv, hs⟩ := h
    refine ⟨_, hv, ?_⟩
    rw [hs, List.length_append, Nat.add_sub_cancel, List.take_left]

theorem value_readsAs_literal (levels : Nat) :
    ReadsAs Literal.value (value levels) (literal levels) := by
  intro s v rest
  constructor
  · intro h
    have hskipped : value levels (skipBlanks s) = .ok (v, rest) := by rw [value_skipBlanks, h]
    obtain ⟨p, hp, -⟩ := value_passes hskipped
    exact ⟨⟨p, v⟩, literal_eq_ok_iff.mpr ⟨h, hp⟩, rfl⟩
  · intro h
    obtain ⟨e, he, rfl⟩ := h
    exact (literal_eq_ok_iff.mp he).1

/-- A literal is an integer exactly when it is spelled as one whose value is in range. -/
theorem literal_integer_iff {levels : Nat} {s rest : Bytes} {e : Literal} {i : Integer}
    (h : literal levels s = .ok (e, rest)) :
    e.value = .number (.integer i) ↔ IntegerLiteral e.bytes i.val := by
  obtain ⟨hv, hs⟩ := literal_eq_ok_iff.mp h
  constructor
  · intro hi
    rw [hi] at hv
    obtain ⟨p, hp, hbytes⟩ := integerLiteral_of_value hv
    obtain rfl : e.bytes = p := List.append_cancel_right (hs.symm.trans hbytes)
    exact hp
  · intro hi
    exact value_of_integerLiteral hv hs hi

/-! ## The items of an array -/

/-- The text is an array with these items, in order. -/
inductive ArrayText (text : String) : List Literal → Prop
  | empty {r rest : Bytes} (hopen : skipBlanks (Utf8.encode text) = 91 :: r)
    (hclose : skipBlanks r = 93 :: rest) (hend : skipBlanks rest = []) : ArrayText text []
  | items {es : List Literal} {c : UInt8} {r r' t rest : Bytes}
    (hopen : skipBlanks (Utf8.encode text) = 91 :: r) (hfirst : skipBlanks r = c :: r')
    (hc : c ≠ 93) (hlisted : Listed (literal (maxDepth - 1)) es (c :: r') t)
    (hclose : skipBlanks t = 93 :: rest) (hend : skipBlanks rest = []) : ArrayText text es

theorem ofText_array_iff {text : String} {vs : List Json} :
    Json.ofText text = .ok (.array vs) ↔
      ∃ es, ArrayText text es ∧ vs = es.map Literal.value := by
  rw [ofText_eq_ok_iff]
  constructor
  · intro h
    obtain ⟨rest, hvalue, hend⟩ := h
    obtain ⟨r, hopen, hitems⟩ := value_array_iff.mp hvalue
    rcases (sequence_eq_ok_iff value_length_le).mp hitems with
      ⟨rfl, hclose⟩ | ⟨c, r', t, hfirst, hc, hlisted, hclose⟩
    · exact ⟨[], .empty hopen hclose hend, rfl⟩
    · obtain ⟨es, hes, rfl⟩ := (value_readsAs_literal _).listed_iff.mp hlisted
      exact ⟨es, .items hopen hfirst hc hes hclose hend, rfl⟩
  · intro h
    obtain ⟨es, htext, rfl⟩ := h
    cases htext with
    | @empty r rest hopen hclose hend =>
      exact ⟨rest, value_array_iff.mpr ⟨r, hopen,
        (sequence_eq_ok_iff value_length_le).mpr (.inl ⟨rfl, hclose⟩)⟩, hend⟩
    | @items _ c r r' t rest hopen hfirst hc hlisted hclose hend =>
      have hvalues := (value_readsAs_literal _).listed_iff.mpr ⟨es, hlisted, rfl⟩
      exact ⟨rest, value_array_iff.mpr ⟨r, hopen,
        (sequence_eq_ok_iff value_length_le).mpr
          (.inr ⟨c, r', t, hfirst, hc, hvalues, hclose⟩)⟩, hend⟩

/-- An item is an integer exactly when it is spelled as one whose value is in range. -/
theorem ArrayText.integer_iff {text : String} {es : List Literal} (h : ArrayText text es)
    {e : Literal} (he : e ∈ es) {i : Integer} :
    e.value = .number (.integer i) ↔ IntegerLiteral e.bytes i.val := by
  cases h with
  | empty => cases he
  | items _ _ _ hlisted _ _ =>
    obtain ⟨s, rest, hread⟩ := hlisted.exists_read e he
    exact literal_integer_iff hread

/-! ## The members of an object -/

/-- The text is an object with these members, in text order and with every repeat. -/
inductive MembersText (text : String) : List (String × Literal) → Prop
  | empty {r rest : Bytes} (hopen : skipBlanks (Utf8.encode text) = 123 :: r)
    (hclose : skipBlanks r = 125 :: rest) (hend : skipBlanks rest = []) : MembersText text []
  | members {ms : List (String × Literal)} {r t rest : Bytes}
    (hopen : skipBlanks (Utf8.encode text) = 123 :: r)
    (hlisted : Listed (entry (literal (maxDepth - 1))) ms (skipBlanks r) t)
    (hclose : skipBlanks t = 125 :: rest) (hend : skipBlanks rest = []) : MembersText text ms

/-- The members without their spellings. -/
def valuesOf (ms : List (String × Literal)) : List (String × Json) :=
  ms.map fun m => (m.1, m.2.value)

theorem objectText_iff_membersText {text : String} {pairs : List (String × Json)} :
    ObjectText text pairs ↔ ∃ ms, MembersText text ms ∧ pairs = valuesOf ms := by
  constructor
  · intro h
    cases h with
    | empty hopen hclose hend => exact ⟨[], .empty hopen hclose hend, rfl⟩
    | members hopen hlisted hclose hend =>
      obtain ⟨ms, hms, rfl⟩ := (value_readsAs_literal _).entry.listed_iff.mp hlisted
      exact ⟨ms, .members hopen hms hclose hend, rfl⟩
  · intro h
    obtain ⟨ms, htext, rfl⟩ := h
    cases htext with
    | empty hopen hclose hend => exact .empty hopen hclose hend
    | members hopen hlisted hclose hend =>
      exact .members hopen
        ((value_readsAs_literal _).entry.listed_iff.mpr ⟨ms, hlisted, rfl⟩) hclose hend

theorem isLast_valuesOf_iff {ms : List (String × Literal)} {name : String} {x : Json} :
    Json.IsLast (valuesOf ms) (name, x) ↔
      ∃ before e after, ms = before ++ (name, e) :: after ∧ e.value = x ∧
        name ∉ after.map Prod.fst := by
  have hnames (after : List (String × Literal)) :
      (valuesOf after).map Prod.fst = after.map Prod.fst := by
    rw [valuesOf, List.map_map]
    rfl
  constructor
  · intro h
    obtain ⟨before, after, heq, hafter⟩ := h
    obtain ⟨ms₁, ms₂, rfl, rfl, hms₂⟩ := List.map_eq_append_iff.mp heq
    obtain ⟨⟨n, e⟩, ms₃, rfl, hm, rfl⟩ := List.map_eq_cons_iff.mp hms₂
    cases hm
    exact ⟨ms₁, e, ms₃, rfl, rfl, hnames ms₃ ▸ hafter⟩
  · intro h
    obtain ⟨before, e, after, rfl, rfl, hafter⟩ := h
    refine ⟨valuesOf before, valuesOf after, ?_, (hnames after).symm ▸ hafter⟩
    rw [valuesOf, List.map_append, List.map_cons]
    rfl

theorem MembersText.ofText {ms : List (String × Literal)} (h : MembersText text ms) :
    Json.ofText text = .ok (.object (Json.collect (valuesOf ms))) :=
  ofText_object_iff.mpr
    ⟨_, objectText_iff_membersText.mpr ⟨ms, h, rfl⟩, rfl⟩

/-- The names of a document that was read are distinct. -/
theorem nodup_members_of_ofText (h : Json.ofText text = .ok v) :
    (v.members.map Prod.fst).Nodup := by
  cases v with
  | object ms =>
    obtain ⟨pairs, -, rfl⟩ := ofText_object_iff.mp h
    exact Json.nodup_collect pairs
  | _ => exact List.nodup_nil

/-- The value of a member is an integer exactly when it is spelled as one whose value is in
range. -/
theorem MembersText.integer_iff {text : String} {ms : List (String × Literal)}
    (h : MembersText text ms) {m : String × Literal} (hm : m ∈ ms) {i : Integer} :
    m.2.value = .number (.integer i) ↔ IntegerLiteral m.2.bytes i.val := by
  cases h with
  | empty => cases hm
  | members _ hlisted _ _ =>
    obtain ⟨s, rest, hread⟩ := hlisted.exists_read m hm
    obtain ⟨r, -, hmember⟩ := entry_eq_ok_iff.mp hread
    simp only [member, bind_eq_ok] at hmember
    obtain ⟨⟨name, t⟩, -, u, -, ⟨e, w⟩, hliteral, hmember⟩ := hmember
    cases hmember
    exact literal_integer_iff hliteral

end Untagged.Json.Reader
