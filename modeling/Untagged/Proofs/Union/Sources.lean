import Untagged.Proofs.Json.Lookahead
import Untagged.Proofs.Union.Trial
import Untagged.Unions.Fruit

/-!
# One document from every source

The ways into a union read the same bytes.  Bytes that are text are decoded as that
text is, and bytes that are not text are malformed, since a document that is read is
text (`Reader.isText_of_document`).  A stream is decoded as the bytes that it hands
out, up to the place of a fault.  A stream that fails is never decoded, not even
when a complete document has been handed out before: the check for the end of the
document asks the stream for more, and meets the failure.

`Stream.HandsOut stream b tail` says that the stream hands out `b` in pieces of any
size and then goes on as `tail`.  Reading a value may leave a part of `b` to the check
for the end (`Stream.value_of_handsOut`), which asks for all of it
(`Stream.finish_of_handsOut`).
-/

namespace Untagged

namespace Json

/-! ## What a stream hands out -/

namespace Stream

/-- The stream hands out `b` in pieces that are not empty, and goes on as `tail`. -/
inductive HandsOut : Stream → Bytes → Stream → Prop
  | nothing (tail : Stream) : HandsOut tail [] tail
  | piece {p b : Bytes} {stream tail : Stream} (hp : p ≠ []) (h : HandsOut stream b tail) :
      HandsOut (.piece p :: stream) (p ++ b) tail

/-- The stream reports the end of its input. -/
inductive Ends : Stream → Prop
  | exhausted : Ends []
  | empty (more : Stream) : Ends (.piece [] :: more)

/-- The stream fails. -/
inductive Breaks : Stream → Prop
  | failure (more : Stream) : Breaks (.failure :: more)

variable {stream tail : Stream} {b : Bytes}

/-! ## Reading a value -/

theorem value_of_settled {given : Bytes}
    (h : ¬ Reader.Unsettled (Reader.value Reader.maxDepth given)) (stream : Stream) :
    value given stream = settle given stream (Reader.value Reader.maxDepth given) := by
  rw [value.eq_def]
  exact if_neg h

theorem value_of_ends (ht : Ends tail) (given : Bytes) :
    value given tail = settle given tail (Reader.value Reader.maxDepth given) := by
  rw [value.eq_def]
  cases ht <;> exact ite_self _

theorem value_of_breaks (ht : Breaks tail) {given : Bytes}
    (h : Reader.Unsettled (Reader.value Reader.maxDepth given)) :
    value given tail =
      .error (failedRead given (Reader.stopsInside (Reader.value Reader.maxDepth given))) := by
  rw [value.eq_def]
  cases ht
  exact if_pos h

/-- Reading a value asks for all that the stream hands out, or settles before that. -/
theorem value_of_handsOut (h : HandsOut stream b tail) (given : Bytes) :
    value given stream = value (given ++ b) tail ∨
    ∃ p rest more, given ++ b = p ++ rest ∧ HandsOut more rest tail ∧
      ¬ Reader.Unsettled (Reader.value Reader.maxDepth p) ∧
      value given stream = settle p more (Reader.value Reader.maxDepth p) := by
  induction h generalizing given with
  | nothing tail =>
    rw [List.append_nil]
    exact .inl rfl
  | @piece p b stream tail hp h ih =>
    by_cases hopen : Reader.Unsettled (Reader.value Reader.maxDepth given)
    · have hstep : value given (.piece p :: stream) = value (given ++ p) stream := by
        cases p with
        | nil => exact absurd rfl hp
        | cons c p =>
          rw [value]
          exact if_pos hopen
      rw [hstep, ← List.append_assoc]
      exact ih (given ++ p)
    · exact .inr ⟨given, p ++ b, _, rfl, .piece hp h, hopen, value_of_settled hopen _⟩

/-- A value that what follows `b` could change is read with all of `b`. -/
theorem value_of_unsettled (h : HandsOut stream b tail)
    (hopen : Reader.Unsettled (Reader.value Reader.maxDepth b)) :
    value [] stream = value b tail := by
  obtain hall | ⟨p, rest, more, rfl, -, hsettled, -⟩ := value_of_handsOut h []
  · exact hall
  · rw [Reader.value_keeps _ p rest hsettled] at hopen
    exact absurd hopen.of_followedBy hsettled

/-! ## The check for the end -/

/-- The check for the end asks for all that the stream hands out, and then for more. -/
theorem finish_of_handsOut {α : Type} (h : HandsOut stream b tail) (x : α)
    (given ahead : Bytes) :
    (finish x given ahead stream).mapError Error.cause = (do
      let x ← (Reader.finish x (ahead ++ b)).mapError Fault.cause
      (finish x (given ++ b) [] tail).mapError Error.cause) := by
  induction h generalizing x given ahead with
  | nothing tail =>
    rw [List.append_nil, List.append_nil, finish.eq_def]
    cases Reader.finish x ahead with
    | error f => rfl
    | ok x =>
      show _ = (finish x given [] tail).mapError Error.cause
      rw [finish.eq_def x given []]
      rfl
  | @piece p b stream tail hp h ih =>
    obtain ⟨c, p, rfl⟩ := List.exists_cons_of_ne_nil hp
    rw [finish]
    cases hahead : Reader.finish x ahead with
    | error f =>
      rw [Reader.finish_append_of_error hahead]
      rfl
    | ok y =>
      rw [Reader.finish_append_of_ok hahead, ← List.append_assoc]
      exact ih y _ _

end Stream

/-! ## Reading a document -/

section

variable {stream tail : Stream} {b : Bytes}

/-- Where the value is settled by `p`, the check for the end reads what is handed out
behind it. -/
theorem ofStream_of_settled {p rest : Bytes} {more : Stream} (hmore : more.HandsOut rest tail)
    (hvalue : stream.value [] = Stream.settle p more (Reader.value Reader.maxDepth p))
    (hkeeps : Reader.value Reader.maxDepth (p ++ rest) =
      Reader.followedBy rest (Reader.value Reader.maxDepth p)) :
    (ofStream stream).mapError Error.cause = (do
      let v ← (Reader.document (p ++ rest)).mapError Fault.cause
      (Stream.finish v (p ++ rest) [] tail).mapError Error.cause) := by
  rw [ofStream, hvalue, Reader.document, Reader.documentWithin, hkeeps]
  cases Reader.value Reader.maxDepth p with
  | error f => rfl
  | ok r => exact Stream.finish_of_handsOut hmore r.1 p r.2

/-- A stream is read as the bytes `b` that it hands out, and then as it goes on, where the
value does not depend on what follows `b`. -/
theorem ofStream_of_handsOut (hb : stream.HandsOut b tail)
    (htail : Stream.value b tail = Stream.settle b tail (Reader.value Reader.maxDepth b)) :
    (ofStream stream).mapError Error.cause = (do
      let v ← (Reader.document b).mapError Fault.cause
      (Stream.finish v b [] tail).mapError Error.cause) := by
  obtain hall | ⟨p, rest, more, rfl, hmore, hsettled, hvalue⟩ := Stream.value_of_handsOut hb []
  · have h := ofStream_of_settled (.nothing tail) (hall.trans htail)
    rw [List.append_nil] at h
    exact h (Reader.followedBy_nil _).symm
  · exact ofStream_of_settled hmore hvalue (Reader.value_keeps _ p rest hsettled)

/-- An error without the place that it names. -/
def Error.unplaced (e : Error) : Error := { e with position := none }

/-- A stream that ends is read as the bytes that it hands out.  Only the places of
faults are counted differently. -/
theorem ofStream_of_ends (hb : stream.HandsOut b tail) (ht : tail.Ends) :
    (ofStream stream).mapError Error.unplaced = (ofBytes b).mapError Error.unplaced := by
  have hfinish (v : Json) : Stream.finish v b [] tail = .ok v := by
    cases ht <;> rfl
  have hcause : (ofStream stream).mapError Error.cause = (ofBytes b).mapError Error.cause := by
    rw [ofStream_of_handsOut hb (Stream.value_of_ends ht b), ofBytes]
    cases Reader.document b with
    | ok v => exact congrArg (·.mapError Error.cause) (hfinish v)
    | error f => rfl
  have hplaced (r : Except Error Json) :
      r.mapError Error.unplaced = (r.mapError Error.cause).mapError fun c => ⟨c, none⟩ := by
    cases r <;> rfl
  rw [hplaced, hcause, ← hplaced]

/-- A stream that fails is not read.  Where a document was handed out before, the error is
the failure. -/
theorem ofStream_of_breaks (hb : stream.HandsOut b tail) (ht : tail.Breaks) :
    ∃ e, ofStream stream = .error e ∧ ((ofBytes b).isOk → e.cause = .readFailed) := by
  by_cases hopen : Reader.Unsettled (Reader.value Reader.maxDepth b)
  · refine ⟨failedRead b (Reader.stopsInside (Reader.value Reader.maxDepth b)), ?_,
      fun _ => rfl⟩
    rw [ofStream, Stream.value_of_unsettled hb hopen, Stream.value_of_breaks ht hopen]
    rfl
  · have hcause : (ofStream stream).mapError Error.cause =
        (Reader.document b).mapError Fault.cause >>= fun _ => .error .readFailed := by
      rw [ofStream_of_handsOut hb (Stream.value_of_settled hopen tail)]
      cases ht
      rfl
    rw [ofBytes]
    cases hread : ofStream stream with
    | ok v =>
      rw [hread] at hcause
      cases hdocument : Reader.document b with
      | ok w =>
        rw [hdocument] at hcause
        cases hcause
      | error f =>
        rw [hdocument] at hcause
        cases hcause
    | error e =>
      refine ⟨e, rfl, fun hok => ?_⟩
      rw [hread] at hcause
      cases hdocument : Reader.document b with
      | ok w =>
        rw [hdocument] at hcause
        exact Except.error.inj hcause
      | error f =>
        rw [hdocument] at hok
        cases hok

end

theorem ofBytes_of_decode? {b : Bytes} {s : String} (h : Utf8.decode? b = some s) :
    ofBytes b = ofText s := by
  rw [ofText, Utf8.decode?_eq_some_iff.mp h]
  rfl

/-- Bytes that are not text are no document. -/
theorem ofBytes_of_not_text {b : Bytes} (h : Utf8.decode? b = none) :
    ∃ e, ofBytes b = .error e := by
  rw [ofBytes]
  cases hd : Reader.document b with
  | ok v =>
    obtain ⟨s, hs⟩ := Reader.isText_of_document hd
    rw [Utf8.decode?_eq_some_iff.mpr hs] at h
    cases h
  | error f => exact ⟨_, rfl⟩

end Json

/-! ## Decoding a document -/

/-- What a document is found to be, without the place of a fault. -/
def Found.unplaced : Found → Found
  | kind k => kind k
  | notJson e => notJson e.unplaced

/-- A failure to decode, without the place of a fault in the document. -/
def DecodeError.unplaced : DecodeError → DecodeError
  | malformed union found => malformed union found.unplaced
  | noMatch union tried => noMatch union tried
  | invalid union findings => invalid union findings

namespace Union

variable {α : Type}

/-- Reads that differ by the place of a fault only are decoded alike, up to that
place. -/
theorem decodeRead_unplaced {r r' : Except Json.Error Json}
    (h : r.mapError Json.Error.unplaced = r'.mapError Json.Error.unplaced) (u : Union α) :
    (u.decodeRead r).mapError DecodeError.unplaced =
      (u.decodeRead r').mapError DecodeError.unplaced := by
  cases r with
  | ok v =>
    cases r' with
    | ok v' => rw [Except.ok.inj h]
    | error e' => cases h
  | error e =>
    cases r' with
    | ok v' => cases h
    | error e' =>
      have he : e.unplaced = e'.unplaced := Except.error.inj h
      show Attempt.fail (DecodeError.malformed u.name (Found.notJson e.unplaced)) = _
      rw [he]
      rfl

/-- What the ways into a union make of the bytes `b`, whether they are given at once or
handed out by a stream. -/
structure SourcesAgree (u : Union α) (b : Bytes) : Prop where
  /-- Bytes that are text are decoded as that text. -/
  text : ∀ s, Utf8.decode? b = some s → u.decodeBytes b = u.decodeText s
  /-- Bytes that are not text are malformed. -/
  notText : Utf8.decode? b = none → ∃ e, u.decodeBytes b = .fail (.malformed u.name (.notJson e))
  /-- A stream that ends is decoded to a value where its bytes are, and to the same one. -/
  values : ∀ stream tail, Json.Stream.HandsOut stream b tail → Json.Stream.Ends tail →
    ∀ x, (u.decodeStream stream).outcome = .ok x ↔ (u.decodeBytes b).outcome = .ok x
  /-- It is refused as its bytes are, up to the place of a fault in the document. -/
  faults : ∀ stream tail, Json.Stream.HandsOut stream b tail → Json.Stream.Ends tail →
    (u.decodeStream stream).mapError DecodeError.unplaced =
      (u.decodeBytes b).mapError DecodeError.unplaced
  /-- A stream that fails is malformed, however much of `b` was handed out before.  Behind a
  document that is complete, what is found is the failure. -/
  failing : ∀ p, p <+: b → ∀ stream tail, Json.Stream.HandsOut stream p tail →
    Json.Stream.Breaks tail →
    ∃ e, u.decodeStream stream = .fail (.malformed u.name (.notJson e)) ∧
      ((Json.ofBytes p).isOk → e.cause = .readFailed)

/-- Text, bytes and streams are decoded alike. -/
theorem decodes_alike_from_every_source (u : Union α) (b : Bytes) : u.SourcesAgree b where
  text s hs := by
    rw [decodeBytes, Json.ofBytes_of_decode? hs]
    rfl
  notText hnone := by
    obtain ⟨e, he⟩ := Json.ofBytes_of_not_text hnone
    exact ⟨e, by rw [decodeBytes, he]; rfl⟩
  values stream tail hb ht x := by
    have halike := decodeRead_unplaced (Json.ofStream_of_ends hb ht) u
    rw [decodeStream, decodeBytes, ← Attempt.outcome_mapError_eq_ok, halike,
      Attempt.outcome_mapError_eq_ok]
  faults stream tail hb ht := decodeRead_unplaced (Json.ofStream_of_ends hb ht) u
  failing p _ stream tail hp ht := by
    obtain ⟨e, he, hcause⟩ := Json.ofStream_of_breaks hp ht
    exact ⟨e, by rw [decodeStream, he]; rfl, hcause⟩

/-- An apple whose cultivar is cut inside a character is read whole, a stream that
fails behind its last byte is not, and half of the character is no text. -/
theorem apple_from_every_source :
    let first : Bytes := [123, 34, 99, 117, 108, 116, 105, 118, 97, 114, 34, 58, 34, 195]
    let second : Bytes := [169, 34, 125]
    let b := first ++ (second ++ [])
    Utf8.decode? b = some "\x7b\"cultivar\":\"é\"\x7d" ∧
    fruitReq.decodeBytes b = fruitReq.decodeText "\x7b\"cultivar\":\"é\"\x7d" ∧
    (fruitReq.decodeStream [.piece first, .piece second]).outcome =
      .ok (.holding (.apple ⟨"é", none⟩)) ∧
    (∃ e, fruitReq.decodeStream [.piece first, .piece second, .failure] =
      .fail (.malformed "FruitReq" (.notJson e)) ∧ e.cause = .readFailed) ∧
    Utf8.decode? first = none ∧
    (∃ e, fruitReq.decodeBytes first = .fail (.malformed "FruitReq" (.notJson e))) := by
  intro first second b
  have hb : Utf8.decode? b = some "\x7b\"cultivar\":\"é\"\x7d" := by decide +kernel
  have hfirst : Utf8.decode? first = none := by decide +kernel
  have hout (tail : Json.Stream) :
      Json.Stream.HandsOut (.piece first :: .piece second :: tail) b tail :=
    .piece (by decide) (.piece (by decide) (.nothing tail))
  have hagree := decodes_alike_from_every_source fruitReq b
  refine ⟨hb, hagree.text _ hb, ?_, ?_, hfirst,
    (decodes_alike_from_every_source fruitReq first).notText hfirst⟩
  · refine (hagree.values _ _ (hout []) .exhausted _).mpr ?_
    rfl
  · obtain ⟨e, he, hcause⟩ :=
      hagree.failing b (List.prefix_refl b) _ _ (hout [.failure]) (.failure [])
    exact ⟨e, he, hcause (by decide +kernel)⟩

end Union

end Untagged
