import Untagged.Proofs.Json.Collected
import Untagged.Proofs.Union.Trial
import Untagged.Unions.Named

/-!
# What a hook is shown

A hook is shown the members of an object one by one, before any candidate is tried.
What it is shown are the members collected from the text, each name once; the
candidates are tried on the same members.  Nothing else has properties.
-/

namespace Untagged

open Json.Reader (ObjectText)

variable {α σ : Type}

/-- What is seen of the members of a text: every name once, in the order in which each
stands first, and with the value that stands last. -/
structure SeenOnce (pairs seen : List (String × Json)) : Prop where
  names : seen.map Prod.fst = (pairs.map Prod.fst).eraseDups
  last : ∀ m, m ∈ seen ↔ Json.IsLast pairs m

theorem seenOnce_collect (pairs : List (String × Json)) : SeenOnce pairs (Json.collect pairs) where
  names := Json.map_fst_collect pairs
  last _ := Json.mem_collect_iff

/-- A scan hands over all members, from the first to the last. -/
theorem scanMembers_eq (inspect : String → Json → σ → σ) (ms : List (String × Json)) (s : σ) :
    scanMembers inspect ms s =
      ⟨ms.length, ms.foldl (fun s m => inspect m.1 m.2 s) s,
        ms.map fun m => .scanning m.1 m.2⟩ := by
  induction ms generalizing s with
  | nil => rfl
  | cons m ms ih =>
    obtain ⟨name, v⟩ := m
    rw [scanMembers, ih]
    rfl

theorem scanDocument_of_not_object {v : Json} (h : ∀ ms, v ≠ .object ms)
    (inspect : String → Json → σ → σ) (s : σ) : scanDocument inspect v s = ⟨0, s, []⟩ := by
  cases v with
  | object ms => exact absurd rfl (h ms)
  | _ => rfl

namespace Union

/-- The hook is shown what a scan of the document shows it, whatever the candidates
are. -/
theorem decodeInspecting_fst (u : Union α) (inspect : String → Json → σ → σ) (v : Json) (s : σ) :
    (u.decodeInspecting inspect v s).1 = (scanDocument inspect v s).state := by
  by_cases hv : v.kind.isContainer = true
  · rw [decodeInspecting, if_pos hv]
  · rw [decodeInspecting, if_neg hv]
    refine (congrArg Scan.state (scanDocument_of_not_object ?_ inspect s)).symm
    intro ms hms
    rw [hms] at hv
    exact hv rfl

theorem log_decode_object (u : Union α) (ms : List (String × Json)) :
    (u.decode (.object ms)).log =
      (ms.map fun m => .scanning m.1 m.2) ++ (firstMatch u.name (.object ms) u.candidates).1 := by
  have hlog : (scanDocument (fun _ _ s => s) (.object ms) ()).log =
      ms.map fun m => Event.scanning m.1 m.2 := log_scanMembers _ ms ()
  have hv : (Json.object ms).kind.isContainer = true := rfl
  rw [decode, decodeInspecting, if_pos hv]
  cases hfound : firstMatch u.name (.object ms) u.candidates with
  | mk log found =>
    rw [← hlog]
    cases found with
    | some a => exact List.append_nil _
    | none => exact List.append_nil _

theorem decodeTextInspecting_of_ok {text : String} {v : Json} (h : Json.ofText text = .ok v)
    (u : Union α) (inspect : String → Json → σ → σ) (s : σ) :
    u.decodeTextInspecting inspect text s = u.decodeInspecting inspect v s := by
  rw [decodeTextInspecting, h]

/-- A hook changes nothing about what is decoded. -/
theorem decodeTextInspecting_snd (u : Union α) (inspect : String → Json → σ → σ) (text : String)
    (s : σ) : (u.decodeTextInspecting inspect text s).2 = u.decodeText text := by
  rw [decodeTextInspecting, decodeText]
  cases Json.ofText text with
  | ok v => exact u.decodeInspecting_snd inspect v s
  | error e => rfl

/-- A text that is no object shows the hook nothing. -/
theorem decodeTextInspecting_fst_of_not_object {text : String}
    (h : ∀ ms, Json.ofText text ≠ .ok (.object ms)) (u : Union α)
    (inspect : String → Json → σ → σ) (s : σ) :
    (u.decodeTextInspecting inspect text s).1 = s := by
  rw [decodeTextInspecting]
  cases hv : Json.ofText text with
  | ok v =>
    have hno : ∀ ms, v ≠ .object ms := fun ms hms => h ms (hms ▸ hv)
    have hscan := scanDocument_of_not_object hno inspect s
    show (u.decodeInspecting inspect v s).1 = s
    rw [decodeInspecting_fst, hscan]
  | error e => rfl

/-- What a decode shows its hook of a text, and makes of the text, where the text is an object
with the members `pairs` and `seen` is what is seen of them. -/
structure ShowsObject (u : Union α) (inspect : String → Json → σ → σ) (s : σ) (text : String)
    (pairs seen : List (String × Json)) : Prop where
  once : SeenOnce pairs seen
  read : Json.ofText text = .ok (.object seen)
  /-- The scan counts the names of the object and passes its members on in order. -/
  scan : scanDocument inspect (.object seen) s =
    ⟨(pairs.map Prod.fst).eraseDups.length, seen.foldl (fun s m => inspect m.1 m.2 s) s,
      seen.map fun m => .scanning m.1 m.2⟩
  state : (u.decodeTextInspecting inspect text s).1 = seen.foldl (fun s m => inspect m.1 m.2 s) s
  /-- The candidates are tried on the members that are seen, whatever the hook does. -/
  decoded : (u.decodeTextInspecting inspect text s).2 = u.decode (.object seen)
  /-- The whole scan comes before the first candidate is tried. -/
  log : (u.decode (.object seen)).log = (seen.map fun m => .scanning m.1 m.2) ++
    (firstMatch u.name (.object seen) u.candidates).1
  first : ∀ x, (u.decode (.object seen)).outcome = .ok x ↔
    ∃ k a, FirstAccepts u.candidates (.object seen) k a ∧ x = .holding a

theorem showsObject (u : Union α) (inspect : String → Json → σ → σ) (s : σ) {text : String}
    {pairs : List (String × Json)} (h : ObjectText text pairs) :
    u.ShowsObject inspect s text pairs (Json.collect pairs) := by
  have hseen := seenOnce_collect pairs
  have htext : Json.ofText text = .ok (.object (Json.collect pairs)) :=
    Json.Reader.ofText_object_iff.mpr ⟨pairs, h, rfl⟩
  have hscan : scanDocument inspect (.object (Json.collect pairs)) s = _ :=
    scanMembers_eq inspect (Json.collect pairs) s
  refine ⟨hseen, htext, ?_, ?_, ?_, u.log_decode_object _, fun x => ?_⟩
  · rw [hscan, ← hseen.names, List.length_map]
  · rw [decodeTextInspecting_of_ok htext, decodeInspecting_fst, hscan]
  · rw [decodeTextInspecting_snd, decodeText, htext]
    rfl
  · rw [decode_eq_ok_iff]
    exact and_iff_right rfl

/-- What a decode shows its hook of a text. -/
structure ShowsHook (u : Union α) (inspect : String → Json → σ → σ) (s : σ) (text : String) :
    Prop where
  /-- The texts that are read as objects are those of members between braces. -/
  object_iff : (∃ ms, Json.ofText text = .ok (.object ms)) ↔ ∃ pairs, ObjectText text pairs
  object : ∀ pairs, ObjectText text pairs → ∃ seen, u.ShowsObject inspect s text pairs seen
  /-- Of any other text the hook is shown nothing. -/
  other : (∀ pairs, ¬ ObjectText text pairs) → (u.decodeTextInspecting inspect text s).1 = s
  other_scan : (∀ pairs, ¬ ObjectText text pairs) →
    ∀ v, Json.ofText text = .ok v → scanDocument inspect v s = ⟨0, s, []⟩

/-- The hook of a decode is shown every member of the object that the text is, once, and
before any candidate is tried.  This is about the scan of this one decode.  A union that is
a member of the object, which may be the same union again, is decoded by itself when a
candidate is tried: the object is shown to the hook here as a value, and what is inside of
it to the hook of that other decode. -/
theorem hook_sees_members_once (u : Union α) (inspect : String → Json → σ → σ) (s : σ)
    (text : String) : u.ShowsHook inspect s text := by
  have hobject {ms : List (String × Json)} : Json.ofText text = .ok (.object ms) ↔
      ∃ pairs, ObjectText text pairs ∧ ms = Json.collect pairs :=
    Json.Reader.ofText_object_iff
  have hno (hnone : ∀ pairs, ¬ ObjectText text pairs) (ms : List (String × Json)) :
      Json.ofText text ≠ .ok (.object ms) := by
    intro hms
    obtain ⟨pairs, hpairs, -⟩ := hobject.mp hms
    exact hnone pairs hpairs
  refine ⟨⟨fun h => ?_, fun h => ?_⟩, fun pairs h => ⟨_, u.showsObject inspect s h⟩,
    fun hnone => ?_, fun hnone v hv => ?_⟩
  · obtain ⟨ms, hms⟩ := h
    obtain ⟨pairs, hpairs, -⟩ := hobject.mp hms
    exact ⟨pairs, hpairs⟩
  · obtain ⟨pairs, hpairs⟩ := h
    exact ⟨Json.collect pairs, hobject.mpr ⟨pairs, hpairs, rfl⟩⟩
  · exact decodeTextInspecting_fst_of_not_object (hno hnone) u inspect s
  · exact scanDocument_of_not_object (fun ms hms => hno hnone ms (hms ▸ hv)) inspect s

/-- A name that is written with an escape is repeated, and the member inside another one
is not shown. -/
theorem hook_sees_repeated_name :
    let text := "\x7b\"a\":1,\"b\":\x7b\"a\":2\x7d,\"\\u0061\":3\x7d"
    let number (i : Int64) : Json := .number (.integer (.ofInt64 i))
    let pairs := [("a", number 1), ("b", .object [("a", number 2)]), ("a", number 3)]
    let inspect (name : String) (_ : Json) (names : List String) := names ++ [name]
    ObjectText text pairs ∧ ∃ seen, SeenOnce pairs seen ∧ seen.map Prod.fst = ["a", "b"] ∧
      (scanDocument inspect (.object seen) []).consumed = 2 ∧
      (tracked.decodeTextInspecting inspect text []).2 = tracked.decode (.object seen) := by
  intro text number pairs inspect
  have hpairs : ObjectText text pairs := by
    refine Json.Reader.objectText_iff.mpr ⟨(Utf8.encode text).tail, [], ?_, ?_, rfl⟩
    · decide +kernel
    · rfl
  obtain ⟨seen, hshows⟩ := (hook_sees_members_once tracked inspect [] text).object pairs hpairs
  have hnames : (pairs.map Prod.fst).eraseDups = ["a", "b"] := by decide
  refine ⟨hpairs, seen, hshows.once, hshows.once.names.trans hnames, ?_, hshows.decoded⟩
  rw [hshows.scan, hnames]
  rfl

end Union

end Untagged
