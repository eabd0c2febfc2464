import Untagged.Json.DirectRecord
import Untagged.Proofs.Json.Collected
import Untagged.Proofs.Json.FirstByte

/-!
# Records read straight from text

A record that is read straight from text is what its members make of the defaults, one
after the other.  A member sets a field, cannot be read as its field, or is passed over
(`Carries`); `steps` is what the members of an object do together.  The text of the
object then gives just that, or fails where a member does (`membership_gives`).
-/

namespace Untagged.Json.Direct

open Reader

variable {σ α : Type}

/-! ## Single values -/

section

variable {levels : Nat} {s rest : Bytes} {v : Json}

theorem boolean_of_value {b : Bool} (h : Reader.value levels s = .ok (.boolean b, rest)) :
    boolean s = .ok (b, rest) := by
  obtain ⟨inner, c, r, hs, hfrom⟩ := readFrom_of_value h
  rw [boolean, hs]
  cases hfrom with
  | true h =>
    show (ofGrammar (keyword [114, 117, 101] r)).map _ = _
    rw [h]
    rfl
  | false h =>
    show (ofGrammar (keyword [97, 108, 115, 101] r)).map _ = _
    rw [h]
    rfl

theorem string_of_value {text : String} (h : Reader.value levels s = .ok (.string text, rest)) :
    string s = .ok (text, rest) := by
  obtain ⟨inner, c, r, hs, hfrom⟩ := readFrom_of_value h
  rw [string, hs]
  cases hfrom with
  | string h =>
    show ofGrammar (Reader.string r) = _
    rw [h]
    rfl

/-- The first bytes of a truth value, a string and an object begin nothing else. -/
theorem first_of_value (h : Reader.value levels s = .ok (v, rest)) :
    ∃ b r, skipBlanks s = b :: r ∧ (v.kind ≠ .boolean → b ≠ 116 ∧ b ≠ 102) ∧
      (v.kind ≠ .string → b ≠ 34) ∧ (v.kind ≠ .object → b ≠ 123) := by
  obtain ⟨inner, b, r, hs, hfrom⟩ := readFrom_of_value h
  refine ⟨b, r, hs, ?_⟩
  cases hfrom with
  | natural hb _ =>
    exact ⟨fun _ => ⟨ne_of_isDigit hb (by decide), ne_of_isDigit hb (by decide)⟩,
      fun _ => ne_of_isDigit hb (by decide), fun _ => ne_of_isDigit hb (by decide)⟩
  | true | false =>
    exact ⟨fun hne => absurd rfl hne, fun _ => by decide, fun _ => by decide⟩
  | string => exact ⟨fun _ => by decide, fun hne => absurd rfl hne, fun _ => by decide⟩
  | object => exact ⟨fun _ => by decide, fun _ => by decide, fun hne => absurd rfl hne⟩
  | null | negative | array =>
    exact ⟨fun _ => by decide, fun _ => by decide, fun _ => by decide⟩

theorem boolean_of_other (h : Reader.value levels s = .ok (v, rest)) (hv : v.kind ≠ .boolean) :
    ∃ e, boolean s = .error e := by
  obtain ⟨b, r, hs, hb, -⟩ := first_of_value h
  obtain ⟨htrue, hfalse⟩ := hb hv
  exact ⟨_, by rw [boolean, hs]; simp only [if_neg htrue, if_neg hfalse]; rfl⟩

theorem string_of_other (h : Reader.value levels s = .ok (v, rest)) (hv : v.kind ≠ .string) :
    ∃ e, string s = .error e := by
  obtain ⟨b, r, hs, -, hb, -⟩ := first_of_value h
  exact ⟨_, by rw [string, hs]; simp only [if_neg (hb hv)]; rfl⟩

end

/-! ## Members -/

/-- What the members make of a record, if all of them can be read. -/
def steps (step : String × α → σ → Option σ) (ms : List (String × α)) (x : σ) : Option σ :=
  ms.foldlM (fun x m => step m x) x

theorem steps_cons (step : String × α → σ → Option σ) (m : String × α) (ms : List (String × α))
    (x : σ) : steps step (m :: ms) x = step m x >>= steps step ms :=
  List.foldlM_cons

/-- The reading gives the record and stops before `rest`, or fails if there is none. -/
def Gives (o : Option σ) (rest : Bytes) (r : Except Failure (Read σ)) : Prop :=
  match o with
  | some y => r = .ok (y, rest)
  | none => ∃ e, r = .error e

/-- What a member, read by `item`, does to the record `x`. -/
inductive Carries (item : Bytes → Except Fault (Read α)) (fields : List (FieldReader σ))
    (step : String × α → σ → Option σ) (m : String × α) (x : σ) : Prop
  | sets {f : FieldReader σ} (hf : fields.find? (·.name = m.1) = some f)
    (h : ∀ s rest, item s = .ok (m.2, rest) → Gives (step m x) rest (f.read x s))
  | passed (hf : fields.find? (·.name = m.1) = none) (hstep : step m x = some x)
    (h : ∀ s rest, item s = .ok (m.2, rest) → Skip.value s = .ok rest)

variable {item : Bytes → Except Fault (Read α)} {fields : List (FieldReader σ)}
  {step : String × α → σ → Option σ}

/-- A member reads what it carries, and a field that it gives was not given before. -/
theorem member_of_carries {m : String × α} {x : σ} (hm : Carries item fields step m x)
    {given : List String} (hgiven : m.1 ∉ given) {r rest : Bytes}
    (h : Reader.member item r = .ok (m, rest)) :
    match step m x with
    | some y => ∃ given', member fields given x r = .ok ((y, given'), rest) ∧
        ∀ n ∈ given', n = m.1 ∨ n ∈ given
    | none => ∃ e, member fields given x r = .error e := by
  simp only [Reader.member, bind_eq_ok] at h
  obtain ⟨⟨name, t⟩, hname, u, hcolon, ⟨a, w⟩, ha, h⟩ := h
  cases h
  have hread (p : Read String → Except Failure ((σ × List String) × Bytes)) :
      (ofGrammar (Reader.string r) >>= p) = p (name, t) := by
    rw [hname]
    rfl
  have hcolon' (p : Bytes → Except Failure ((σ × List String) × Bytes)) :
      (ofGrammar (colon t) >>= p) = p u := by
    rw [hcolon]
    rfl
  rw [member, hread]
  cases hm with
  | @sets f hf hgives =>
    have hnot : given.contains name = false := by simpa using hgiven
    have hvalue := hgives u w ha
    simp only [hf, hnot, Bool.false_eq_true, if_false, hcolon']
    cases hstep : step (name, a) x with
    | some y =>
      rw [hstep] at hvalue
      have hvalue : f.read x u = .ok (y, w) := hvalue
      rw [hvalue]
      exact ⟨name :: given, rfl, fun n hn => List.mem_cons.mp hn⟩
    | none =>
      rw [hstep] at hvalue
      obtain ⟨e, he⟩ : ∃ e, f.read x u = .error e := hvalue
      rw [he]
      exact ⟨e, rfl⟩
  | passed hf hstep hskip =>
    simp only [hf, hcolon', hstep, hskip u w ha]
    exact ⟨given, rfl, fun n hn => .inr hn⟩

/-- Behind the first of the members that are listed, the others are read up to the
brace. -/
theorem gives_of_listed
    (hitem : ∀ s m rest, entry item s = .ok (m, rest) → rest.length ≤ s.length)
    {ms : List (String × α)} {s t rest : Bytes} (h : Listed (entry item) ms s t)
    (ht : skipBlanks t = 125 :: rest) (hnodup : (ms.map Prod.fst).Nodup)
    (hms : ∀ m ∈ ms, ∀ x, Carries item fields step m x) {x : σ} {given : List String}
    (hgiven : ∀ n ∈ given, n ∉ ms.map Prod.fst) :
    ∃ r, s = 34 :: r ∧
      ((steps step ms x = none ∧ ∃ e, member fields given x r = .error e) ∨
        ∃ y given' u, member fields given x r = .ok ((y, given'), u) ∧ u.length ≤ s.length ∧
          ∀ fuel, u.length ≤ fuel →
            Gives (steps step ms x) rest (membersAfter fields fuel given' y u)) := by
  induction h generalizing x given with
  | @last m s t hm =>
    obtain ⟨r, rfl, hmember⟩ := entry_eq_ok_iff.mp hm
    refine ⟨r, rfl, ?_⟩
    have hnot : m.1 ∉ given := fun hmem => hgiven _ hmem (List.mem_singleton_self m.1)
    have hfirst := member_of_carries (hms m (List.mem_singleton_self m) x) hnot hmember
    have hsteps : steps step [m] x = step m x := by
      rw [steps, List.foldlM_cons]
      simp only [List.foldlM_nil, bind_pure]
    rw [hsteps]
    cases hstep : step m x with
    | none =>
      rw [hstep] at hfirst
      exact .inl ⟨rfl, hfirst⟩
    | some y =>
      rw [hstep] at hfirst
      obtain ⟨given', hfirst, -⟩ := hfirst
      refine .inr ⟨y, given', t, hfirst, hitem _ _ _ hm, fun fuel hfuel => ?_⟩
      have hlength := length_le_of_skipBlanks ht
      obtain ⟨k, rfl⟩ : ∃ k, fuel = k + 1 := ⟨fuel - 1, by omega⟩
      show membersAfter fields (k + 1) given' y t = .ok (y, rest)
      rw [membersAfter, ht]
      rfl
  | @more m ms s u v r t c hm hcomma hnext hc _ ih =>
    obtain ⟨r₀, rfl, hmember⟩ := entry_eq_ok_iff.mp hm
    rw [List.map_cons, List.nodup_cons] at hnodup
    rw [List.forall_mem_cons] at hms
    refine ⟨r₀, rfl, ?_⟩
    have hnot : m.1 ∉ given := fun hmem => hgiven _ hmem (.head _)
    have hfirst := member_of_carries (hms.1 x) hnot hmember
    rw [steps_cons]
    cases hstep : step m x with
    | none =>
      rw [hstep] at hfirst
      exact .inl ⟨rfl, hfirst⟩
    | some y =>
      rw [hstep] at hfirst
      obtain ⟨given', hfirst, hmem⟩ := hfirst
      refine .inr ⟨y, given', u, hfirst, hitem _ _ _ hm, fun fuel hfuel => ?_⟩
      have hgiven' : ∀ n ∈ given', n ∉ ms.map Prod.fst := by
        intro n hn
        rcases hmem n hn with rfl | hn
        · exact hnodup.1
        · exact fun hnames => hgiven n hn (.tail _ hnames)
      obtain ⟨r', hr, hrest⟩ := ih ht hnodup.2 hms.2 (x := y) hgiven'
      cases hr
      -- A member takes a byte at least, so the fuel that is left is enough for the others.
      have hlength := length_le_of_skipBlanks hcomma
      have hlength' := length_le_of_skipBlanks hnext
      obtain ⟨k, rfl⟩ : ∃ k, fuel = k + 1 := ⟨fuel - 1, by omega⟩
      have hround : membersAfter fields (k + 1) given' y u =
          member fields given' y r >>= fun p => membersAfter fields k p.1.2 p.1.1 p.2 := by
        rw [membersAfter, hcomma]
        simp only [if_neg (show (44 : UInt8) ≠ 125 by decide), if_true, hnext]
      rw [hround]
      rcases hrest with ⟨hnone, e, he⟩ | ⟨z, given'', w, hok, hw, hbehind⟩
      · rw [he]
        show Gives (steps step ms y) rest _
        rw [hnone]
        exact ⟨e, rfl⟩
      · rw [hok]
        rw [List.length_cons] at hw
        exact hbehind k (by omega)

theorem membership_gives
    (hitem : ∀ s m rest, entry item s = .ok (m, rest) → rest.length ≤ s.length)
    {ms : List (String × α)} {s rest : Bytes} (h : Reader.membership item s = .ok (ms, rest))
    (hnodup : (ms.map Prod.fst).Nodup) (hms : ∀ m ∈ ms, ∀ x, Carries item fields step m x)
    (x : σ) : Gives (steps step ms x) rest (membership fields x s) := by
  rcases (membership_eq_ok_iff hitem).mp h with ⟨rfl, hs⟩ | ⟨t, hlisted, ht⟩
  · show membership fields x s = .ok (x, rest)
    rw [membership, hs]
    rfl
  · have hgiven : ∀ n ∈ ([] : List String), n ∉ ms.map Prod.fst := nofun
    obtain ⟨r, hs, hfirst⟩ := gives_of_listed hitem hlisted ht hnodup hms (x := x) hgiven
    have hround : membership fields x s =
        member fields [] x r >>= fun p => membersAfter fields p.2.length p.1.2 p.1.1 p.2 := by
      rw [membership, hs]
      rfl
    rw [hround]
    rcases hfirst with ⟨hnone, e, he⟩ | ⟨y, given, u, hok, -, hbehind⟩
    · rw [he, hnone]
      exact ⟨e, rfl⟩
    · rw [hok]
      exact hbehind _ (Nat.le_refl _)

end Untagged.Json.Direct
