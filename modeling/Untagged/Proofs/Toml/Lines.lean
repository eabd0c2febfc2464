import Untagged.Proofs.Toml.Quoted
import Untagged.Proofs.Toml.Words
import Untagged.Toml.Reader

/-!
# Documents line by line

A line is empty, gives a member a value, or is the header of a table; white space may
stand between its parts and a comment behind them (`Line`).  Names and values are those
without dots, brackets and braces.  A document of such lines is read as the statements
of its lines (`statementsFrom?_of_lines`, `ofText?_of_lines`).
-/

namespace Untagged.Toml

/-! ## The grammar -/

/-- A name as it is written: bare, or between quotes. -/
inductive Named : Chars → String → Prop
  | bare {cs : Chars} (hne : cs ≠ []) (h : ∀ c ∈ cs, isNameChar c = true) :
    Named cs (String.ofList cs)
  | quoted {written meant : Chars} (h : Escaped written meant) :
    Named ('"' :: (written ++ ['"'])) (String.ofList meant)

/-- A value as it is written. -/
inductive Spelled : Chars → Toml → Prop
  | boolean (b : Bool) : Spelled (toString b).toList (.boolean b)
  | integer (i : Int) : Spelled (toString i).toList (.integer i)
  | string {written meant : Chars} (h : Escaped written meant) :
    Spelled ('"' :: (written ++ ['"'])) (.string (String.ofList meant))

/-- What stands behind the statement of a line: white space, and perhaps a comment. -/
inductive Trailing : Chars → Prop
  | blanks {bs : Chars} (h : ∀ c ∈ bs, isBlank c = true) : Trailing bs
  | comment {bs cs : Chars} (h : ∀ c ∈ bs, isBlank c = true) (hcs : ∀ c ∈ cs, isPlain c = true) :
    Trailing (bs ++ '#' :: cs)

/-- A line without its break, and the statement that it holds, if there is one. -/
inductive Line : Chars → List Statement → Prop
  | empty {t : Chars} (h : Trailing t) : Line t []
  | member {a n b c v t : Chars} {name : String} {value : Toml}
    (ha : ∀ c ∈ a, isBlank c = true) (hn : Named n name) (hb : ∀ c ∈ b, isBlank c = true)
    (hc : ∀ x ∈ c, isBlank x = true) (hv : Spelled v value) (ht : Trailing t) :
    Line (a ++ (n ++ (b ++ '=' :: (c ++ (v ++ t))))) [.member ⟨[], name⟩ value]
  | header {a b n c t : Chars} {name : String} (ha : ∀ c ∈ a, isBlank c = true)
    (hb : ∀ c ∈ b, isBlank c = true) (hn : Named n name) (hc : ∀ x ∈ c, isBlank x = true)
    (ht : Trailing t) : Line (a ++ '[' :: (b ++ (n ++ (c ++ ']' :: t)))) [.header ⟨[], name⟩]

/-- The end of a line, and what is left behind it. -/
inductive LineEnd : Chars → Chars → Prop
  | text : LineEnd [] []
  | lf (rest : Chars) : LineEnd ('\n' :: rest) rest
  | crlf (rest : Chars) : LineEnd ('\x0d' :: '\n' :: rest) rest

/-- A document and its statements. -/
inductive Lines : Chars → List Statement → Prop
  | last {cs : Chars} {sts : List Statement} (h : Line cs sts) : Lines cs sts
  | more {cs tail rest : Chars} {sts others : List Statement} (h : Line cs sts)
    (hend : LineEnd tail rest) (hrest : Lines rest others) : Lines (cs ++ tail) (sts ++ others)

/-! ## White space and comments -/

/-- Neither a name nor a word goes on with such a character. -/
def isOuter (c : Char) : Bool := isBlank c || c = '#' || c = '\n' || c = '\x0d'

section

variable {bs cs t tail rest : Chars} {c : Char}

theorem ne_of_isBlank {d : Char} (hc : isBlank c = true) (hd : isBlank d = false) : c ≠ d := by
  rintro rfl
  rw [hc] at hd
  cases hd

theorem ne_of_isPlain {d : Char} (hc : isPlain c = true) (hd : isPlain d = false) : c ≠ d := by
  rintro rfl
  rw [hc] at hd
  cases hd

theorem skipBlanks_append (h : ∀ c ∈ bs, isBlank c = true) (s : Chars) :
    skipBlanks (bs ++ s) = skipBlanks s :=
  List.dropWhile_append_of_pos h

theorem skipBlanks_cons (h : isBlank c = false) (s : Chars) : skipBlanks (c :: s) = c :: s :=
  List.dropWhile_cons_of_neg (by rw [h]; nofun)

/-- What holds of white space and of the first character behind it holds of the first
character of all. -/
theorem head?_blanks {p : Char → Prop} (hp : ∀ c, isBlank c = true → p c)
    (h : ∀ c ∈ bs, isBlank c = true) {s : Chars} (hs : ∀ c ∈ s.head?, p c) :
    ∀ c ∈ (bs ++ s).head?, p c := by
  cases bs with
  | nil => exact hs
  | cons b bs =>
    intro c hc
    cases hc
    exact hp b (h b (.head _))

theorem gap?_cons (hc : c ≠ '\x0d') (inComment : Bool) (s : Chars) :
    gap? inComment (c :: s) =
      if c = '\n' then gap? false s
      else if inComment then (if isPlain c then gap? true s else none)
      else if isBlank c then gap? false s
      else if c = '#' then gap? true s
      else some (c :: s) := by
  rw [gap?]
  exact fun _ h _ => hc h

theorem gap?_blanks (h : ∀ c ∈ bs, isBlank c = true) (s : Chars) :
    gap? false (bs ++ s) = gap? false s := by
  induction bs with
  | nil => rfl
  | cons b bs ih =>
    rw [List.forall_mem_cons] at h
    rw [List.cons_append, gap?_cons (ne_of_isBlank h.1 rfl), if_neg (ne_of_isBlank h.1 rfl),
      if_neg nofun, if_pos h.1]
    exact ih h.2

theorem gap?_lineEnd (hend : LineEnd tail rest) (inComment : Bool) :
    gap? inComment tail = gap? false rest := by
  cases hend with
  | text => rfl
  | lf => rw [gap?_cons (by decide), if_pos rfl]
  | crlf => rw [gap?]

theorem gap?_trailing (ht : Trailing t) (hend : LineEnd tail rest) :
    gap? false (t ++ tail) = gap? false rest := by
  cases ht with
  | blanks h => rw [gap?_blanks h, gap?_lineEnd hend]
  | @comment bs cs h hcs =>
    rw [List.append_assoc, gap?_blanks h, List.cons_append, gap?_cons (by decide),
      if_neg (by decide), if_neg nofun, if_neg (by decide), if_pos rfl]
    induction cs with
    | nil => exact gap?_lineEnd hend true
    | cons c cs ih =>
      rw [List.forall_mem_cons] at hcs
      rw [List.cons_append, gap?_cons (ne_of_isPlain hcs.1 rfl), if_neg (ne_of_isPlain hcs.1 rfl),
        if_pos rfl, if_pos hcs.1]
      exact ih hcs.2

theorem afterComment?_append (hcs : ∀ c ∈ cs, isPlain c = true) (hend : LineEnd tail rest) :
    afterComment? (cs ++ tail) = some tail := by
  induction cs with
  | nil => cases hend <;> rfl
  | cons c cs ih =>
    rw [List.forall_mem_cons] at hcs
    rw [List.cons_append, afterComment?, if_neg (ne_of_isPlain hcs.1 rfl), if_pos hcs.1]
    · exact ih hcs.2
    · exact fun _ h _ => ne_of_isPlain hcs.1 rfl h

theorem lineEnd?_trailing (ht : Trailing t) (hend : LineEnd tail rest) :
    lineEnd? (t ++ tail) = some rest := by
  cases ht with
  | blanks h =>
    rw [lineEnd?, skipBlanks_append h]
    cases hend <;> rfl
  | @comment bs cs h hcs =>
    rw [lineEnd?, List.append_assoc, skipBlanks_append h, List.cons_append,
      skipBlanks_cons (by decide)]
    show (afterComment? (cs ++ tail) >>= _) = _
    rw [afterComment?_append hcs hend]
    cases hend <;> rfl

end

/-! ## Names -/

section

variable {a b n rest : Chars} {name : String} {c d : Char}

/-- The first character of a name begins nothing else. -/
theorem Named.eq_cons (h : Named n name) :
    ∃ c r, n = c :: r ∧ ∀ d, isNameChar d = false → d ≠ '"' → c ≠ d := by
  cases h with
  | @bare cs hne hcs =>
    obtain ⟨c, r, rfl⟩ := List.exists_cons_of_ne_nil hne
    refine ⟨c, r, rfl, ?_⟩
    rintro d hd - rfl
    rw [hcs _ (.head _)] at hd
    cases hd
  | quoted => exact ⟨'"', _, rfl, fun d _ hquote => Ne.symm hquote⟩

theorem isNameChar_of_isBlank (h : isBlank c = true) : isNameChar c = false := by
  simp only [isBlank, Bool.or_eq_true, decide_eq_true_eq] at h
  rcases h with rfl | rfl
  · rfl
  · rfl

/-- A name begins with no white space. -/
theorem Named.skipBlanks (h : Named n name) (ha : ∀ c ∈ a, isBlank c = true) (s : Chars) :
    skipBlanks (a ++ (n ++ s)) = n ++ s := by
  obtain ⟨c, r, rfl, hne⟩ := h.eq_cons
  rw [skipBlanks_append ha, List.cons_append, skipBlanks_cons]
  rw [Bool.eq_false_iff]
  intro hc
  exact hne c (isNameChar_of_isBlank hc) (ne_of_isBlank hc rfl) rfl

theorem name?_of_named (h : Named n name) (hrest : ∀ c ∈ rest.head?, isNameChar c = false) :
    name? (n ++ rest) = some (name, rest) := by
  cases h with
  | bare hne hcs =>
    have hnone : lineString? (n ++ rest) = none := by
      obtain ⟨c, r, rfl⟩ := List.exists_cons_of_ne_nil hne
      have hc : isNameChar c = true := hcs c (.head _)
      rw [lineString?.eq_def]
      split
      · next heq =>
        rw [(List.cons.inj heq).1] at hc
        cases hc
      · next heq =>
        rw [(List.cons.inj heq).1] at hc
        cases hc
      · rfl
    simp only [name?, hnone, span_append hcs hrest, List.isEmpty_iff, hne, if_false]
  | quoted h =>
    rw [List.cons_append, List.append_assoc, List.singleton_append, name?, lineString?_of_escaped h]

/-- A name, with white space around it, is a key where no dot follows. -/
theorem key?_of_named (rest : Chars) (hn : Named n name) (ha : ∀ c ∈ a, isBlank c = true)
    (hb : ∀ c ∈ b, isBlank c = true) (hname : isNameChar d = false) (hblank : isBlank d = false)
    (hdot : d ≠ '.') : key? (a ++ (n ++ (b ++ d :: rest))) = some (⟨[], name⟩, d :: rest) := by
  have hhead : ∀ c ∈ (b ++ d :: rest).head?, isNameChar c = false := by
    refine head?_blanks (fun _ => isNameChar_of_isBlank) hb fun c hc => ?_
    cases hc
    exact hname
  have hskip : skipBlanks (b ++ d :: rest) = d :: rest := by
    rw [skipBlanks_append hb, skipBlanks_cons hblank]
  rw [key?, keyFrom?, hn.skipBlanks ha, name?_of_named hn hhead]
  simp only [Option.bind_eq_bind, Option.bind_some, hskip]
  split
  · next heq => exact absurd (List.cons.inj heq).1 hdot
  · rfl

end

/-! ## Values -/

section

variable {rest : Chars}

theorem isWordChar_of_isOuter {c : Char} (h : isOuter c = true) : isWordChar c = false := by
  simp only [isOuter, isBlank, Bool.or_eq_true, decide_eq_true_eq] at h
  rcases h with (((rfl | rfl) | rfl) | rfl) | rfl
  · rfl
  · rfl
  · rfl
  · rfl
  · rfl

/-- What is behind a value, or begins a line. -/
theorem isOuter_head {t tail : Chars} (ht : Trailing t) (hend : LineEnd tail rest) :
    ∀ c ∈ (t ++ tail).head?, isOuter c = true := by
  have hblank (c : Char) (hc : isBlank c = true) : isOuter c = true := by
    rw [isOuter, hc]
    rfl
  cases ht with
  | blanks h =>
    refine head?_blanks hblank h fun c hc => ?_
    cases hend <;> cases hc <;> rfl
  | comment h =>
    rw [List.append_assoc]
    refine head?_blanks hblank h fun c hc => ?_
    cases hc
    rfl

theorem valueOver?_of_spelled {v : Chars} {value : Toml} (hv : Spelled v value)
    (hrest : ∀ c ∈ rest.head?, isOuter c = true)
    (inner : Option (Chars → Option (Toml × Chars))) :
    valueOver? inner (v ++ rest) = some (value, rest) := by
  have hword : ∀ c ∈ rest.head?, isWordChar c = false :=
    fun c hc => isWordChar_of_isOuter (hrest c hc)
  cases hv with
  | boolean b =>
    rw [← word?_boolean hword b]
    cases b <;> rfl
  | integer i =>
    rw [← word?_integer hword i]
    obtain ⟨c, r, hcs, hne⟩ := integer_eq_cons i
    have hdouble : c ≠ '"' := hne _ rfl (by decide)
    have hsingle : c ≠ '\'' := hne _ rfl (by decide)
    rw [hcs, List.cons_append, valueOver?]
    simp only [hdouble, hsingle, decide_false, Bool.or_false, Bool.false_eq_true, if_false,
      if_neg (hne '[' rfl (by decide)), if_neg (hne '\x7b' rfl (by decide))]
  | string h =>
    have hquote (t : Chars) : rest ≠ '"' :: t := by
      rintro rfl
      cases hrest '"' rfl
    rw [List.cons_append, List.append_assoc, List.singleton_append]
    show (string? _).map _ = _
    rw [string?_of_escaped h hquote]
    rfl

end

/-! ## Statements -/

section

variable {a n b c v t tail rest : Chars} {name : String} {value : Toml}

/-- A character that begins a statement is neither white space nor a break nor the mark
of a comment. -/
theorem gap?_start {x : Char} (hx : isOuter x = false) (s : Chars) :
    gap? false (x :: s) = some (x :: s) := by
  have hne {y : Char} (hy : isOuter y = true) : x ≠ y := by
    rintro rfl
    rw [hx] at hy
    cases hy
  have hblank : isBlank x = false := by
    simp only [isOuter, Bool.or_eq_false_iff] at hx
    exact hx.1.1.1
  rw [gap?_cons (hne rfl), if_neg (hne rfl), if_neg nofun, hblank, if_neg nofun, if_neg (hne rfl)]

theorem Named.isOuter_eq_false (h : Named n name) :
    ∃ c r, n = c :: r ∧ isOuter c = false := by
  obtain ⟨c, r, rfl, hne⟩ := h.eq_cons
  refine ⟨c, r, rfl, ?_⟩
  simp only [isOuter, isBlank, Bool.or_eq_false_iff, decide_eq_false_iff_not]
  exact ⟨⟨⟨⟨hne _ rfl (by decide), hne _ rfl (by decide)⟩, hne _ rfl (by decide)⟩,
    hne _ rfl (by decide)⟩, hne _ rfl (by decide)⟩

/-- What begins with white space or a name begins with nothing else. -/
theorem Named.blanks_ne (h : Named n name) (hb : ∀ c ∈ b, isBlank c = true) {d : Char}
    (hblank : isBlank d = false) (hname : isNameChar d = false) (hquote : d ≠ '"') (s t : Chars) :
    b ++ (n ++ s) ≠ d :: t := by
  cases b with
  | nil =>
    obtain ⟨c, r, rfl, hne⟩ := h.eq_cons
    exact fun heq => hne d hname hquote (List.cons.inj heq).1
  | cons c b => exact fun heq => ne_of_isBlank (hb c (.head _)) hblank (List.cons.inj heq).1

/-- A value begins with no white space. -/
theorem Spelled.skipBlanks (h : Spelled v value) (hc : ∀ x ∈ c, isBlank x = true) (s : Chars) :
    skipBlanks (c ++ (v ++ s)) = v ++ s := by
  have hhead : ∃ x r, v = x :: r ∧ isBlank x = false := by
    cases h with
    | boolean b => cases b <;> exact ⟨_, _, rfl, rfl⟩
    | integer i =>
      obtain ⟨x, r, hcs, hne⟩ := integer_eq_cons i
      refine ⟨x, r, hcs, ?_⟩
      simp only [isBlank, Bool.or_eq_false_iff, decide_eq_false_iff_not]
      exact ⟨hne _ rfl (by decide), hne _ rfl (by decide)⟩
    | string => exact ⟨'"', _, rfl, rfl⟩
  obtain ⟨x, r, rfl, hx⟩ := hhead
  rw [skipBlanks_append hc, List.cons_append, skipBlanks_cons hx]

theorem statement?_of_ne {s : Chars} (h : ∀ t, s ≠ '[' :: t) :
    statement? s = (member? (value? maxDepth) s).map fun ((key, value), rest) =>
      (.member key value, rest) := by
  rw [statement?.eq_def]
  split
  · exact absurd rfl (h _)
  · rfl

theorem header?_of_ne {s : Chars} (h : ∀ t, s ≠ '[' :: t) :
    header? s = (do
      let (key, rest) ← key? s
      some (.header key, ← expect? ']' rest)) := by
  rw [header?.eq_def]
  split
  · exact absurd rfl (h _)
  · rfl

theorem statement?_member (hn : Named n name) (hb : ∀ c ∈ b, isBlank c = true)
    (hc : ∀ x ∈ c, isBlank x = true) (hv : Spelled v value)
    (hrest : ∀ c ∈ rest.head?, isOuter c = true) :
    statement? (n ++ (b ++ '=' :: (c ++ (v ++ rest)))) =
      some (.member ⟨[], name⟩ value, rest) := by
  have hkey := key?_of_named (a := []) (c ++ (v ++ rest)) hn nofun hb
    (d := '=') rfl rfl (by decide)
  rw [List.nil_append] at hkey
  have hmember : member? (value? maxDepth) (n ++ (b ++ '=' :: (c ++ (v ++ rest)))) =
      some ((⟨[], name⟩, value), rest) := by
    rw [member?, hkey]
    simp only [Option.bind_eq_bind, Option.bind_some, expect?, if_true, hv.skipBlanks hc]
    show (valueOver? (some (value? 79)) (v ++ rest) >>= _) = _
    rw [valueOver?_of_spelled hv hrest]
    rfl
  have hbracket : ∀ t, n ++ (b ++ '=' :: (c ++ (v ++ rest))) ≠ '[' :: t :=
    hn.blanks_ne (b := []) nofun rfl rfl (by decide) _
  rw [statement?_of_ne hbracket, hmember]
  rfl

theorem statement?_header (rest : Chars) (hb : ∀ c ∈ b, isBlank c = true) (hn : Named n name)
    (hc : ∀ x ∈ c, isBlank x = true) :
    statement? ('[' :: (b ++ (n ++ (c ++ ']' :: rest)))) = some (.header ⟨[], name⟩, rest) := by
  have hkey := key?_of_named rest hn hb hc (d := ']') rfl rfl (by decide)
  show header? _ = _
  rw [header?_of_ne (hn.blanks_ne hb rfl rfl (by decide) _), hkey]
  rfl

/-! ## Documents -/

/-- What stands in front of a statement is dropped. -/
theorem statementsFrom?_congr {s s' : Chars} (h : gap? false s = gap? false s') (fuel : Nat) :
    statementsFrom? (fuel + 1) s = statementsFrom? (fuel + 1) s' := by
  rw [statementsFrom?, statementsFrom?, h]

theorem statementsFrom?_cons {s : Chars} {x : Char} {st : Statement} {others : List Statement}
    {fuel : Nat} (hx : isOuter x = false) (hst : statement? (x :: s) = some (st, t ++ tail))
    (ht : Trailing t) (hend : LineEnd tail rest)
    (hrest : statementsFrom? fuel rest = some others) :
    statementsFrom? (fuel + 1) (x :: s) = some (st :: others) := by
  rw [statementsFrom?, gap?_start hx]
  simp only [Option.bind_eq_bind, Option.bind_some, hst, lineEnd?_trailing ht hend, hrest]

theorem LineEnd.length_le (h : LineEnd tail rest) : rest.length ≤ tail.length := by
  cases h with
  | text => exact Nat.le_refl 0
  | lf => exact Nat.le_succ _
  | crlf => exact Nat.le_add_right _ 2

/-- The statement of a line stands in front of those behind it. -/
theorem statementsFrom?_of_line {cs : Chars} {sts others : List Statement} (h : Line cs sts)
    (hend : LineEnd tail rest) {fuel : Nat} (hfuel : (cs ++ tail).length < fuel)
    (hrest : ∀ k, rest.length < k → statementsFrom? k rest = some others) :
    statementsFrom? fuel (cs ++ tail) = some (sts ++ others) := by
  obtain ⟨fuel, rfl⟩ : ∃ n, fuel = n + 1 := ⟨fuel - 1, by omega⟩
  rw [List.length_append] at hfuel
  have hlength := hend.length_le
  cases h with
  | empty ht =>
    rw [statementsFrom?_congr (gap?_trailing ht hend)]
    exact hrest _ (by omega)
  | @member a n b c v t name value ha hn hb hc hv ht =>
    have hst := statement?_member hn hb hc hv (isOuter_head ht hend)
    obtain ⟨x, r, rfl, hx⟩ := hn.isOuter_eq_false
    simp only [List.append_assoc, List.cons_append]
    rw [statementsFrom?_congr (gap?_blanks ha _)]
    simp only [List.length_append, List.length_cons] at hfuel
    exact statementsFrom?_cons hx hst ht hend (hrest _ (by omega))
  | @header a b n c t name ha hb hn hc ht =>
    have hst := statement?_header (t ++ tail) hb hn hc
    simp only [List.append_assoc, List.cons_append]
    rw [statementsFrom?_congr (gap?_blanks ha _)]
    simp only [List.length_append, List.length_cons] at hfuel
    exact statementsFrom?_cons rfl hst ht hend (hrest _ (by omega))

theorem statementsFrom?_of_lines {cs : Chars} {sts : List Statement} (h : Lines cs sts)
    {fuel : Nat} (hfuel : cs.length < fuel) : statementsFrom? fuel cs = some sts := by
  induction h generalizing fuel with
  | @last cs sts hline =>
    rw [← List.append_nil cs] at hfuel ⊢
    rw [← List.append_nil sts]
    refine statementsFrom?_of_line hline .text hfuel fun k hk => ?_
    obtain ⟨k, rfl⟩ : ∃ n, k = n + 1 := ⟨k - 1, by omega⟩
    rfl
  | more hline hend _ ih => exact statementsFrom?_of_line hline hend hfuel fun k hk => ih hk

/-- No line begins with a byte order mark. -/
theorem ne_mark_of_line {cs : Chars} {sts : List Statement} (h : Line cs sts)
    (hend : LineEnd tail rest) (s : Chars) : cs ++ tail ≠ '\ufeff' :: s := by
  cases h with
  | empty ht =>
    intro heq
    have houter := isOuter_head ht hend '\ufeff' (by rw [heq]; rfl)
    cases houter
  | member ha hn =>
    rw [List.append_assoc, List.append_assoc]
    exact hn.blanks_ne ha rfl rfl (by decide) _ s
  | @header a b n c t name ha =>
    cases a with
    | nil => exact fun heq => absurd (List.cons.inj heq).1 (by decide)
    | cons x a => exact fun heq => ne_of_isBlank (ha x (.head _)) rfl (List.cons.inj heq).1

theorem ne_mark_of_lines {cs : Chars} {sts : List Statement} (h : Lines cs sts) (s : Chars) :
    cs ≠ '\ufeff' :: s := by
  cases h with
  | last hline =>
    rw [← List.append_nil cs]
    exact ne_mark_of_line hline .text s
  | more hline hend => exact ne_mark_of_line hline hend s

theorem ofText?_of_lines {text : String} {sts : List Statement} (h : Lines text.toList sts) :
    ofText? text = ofStatements? sts := by
  have hmark : skipMark text.toList = text.toList := by
    rw [skipMark.eq_def]
    split
    · next heq => exact absurd heq (ne_mark_of_lines h _)
    · rfl
  rw [ofText?, hmark, statementsFrom?_of_lines h (Nat.lt_succ_self _)]
  rfl

end

end Untagged.Toml
