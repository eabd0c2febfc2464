import Untagged.Proofs.Config.Toml

/-!
# A TOML text for every sheet

The lines of a sheet are its members, with every name and every string between double
quotes, and the headers of its sections.  Together they are a TOML text of the sheet
(`tomlSheet_text`).
-/

namespace Untagged

open Toml (Chars Line LineEnd Lines Named Spelled Statement Trailing quoted)

/-! ## Lines with their breaks -/

namespace Toml

theorem Trailing.nil : Trailing [] := .blanks nofun

/-- Whole lines: whatever lines stand behind them, their statements come first. -/
def Whole (cs : Chars) (sts : List Statement) : Prop :=
  ∀ rest others, Lines rest others → Lines (cs ++ rest) (sts ++ others)

theorem Whole.nil : Whole [] [] := fun _ _ h => h

theorem Whole.append {cs cs' : Chars} {sts sts' : List Statement} (h : Whole cs sts)
    (h' : Whole cs' sts') : Whole (cs ++ cs') (sts ++ sts') := by
  intro rest others hrest
  rw [List.append_assoc, List.append_assoc]
  exact h _ _ (h' _ _ hrest)

theorem Whole.line {cs : Chars} {sts : List Statement} (h : Line cs sts) :
    Whole (cs ++ ['\n']) sts := by
  intro rest others hrest
  rw [List.append_assoc]
  exact .more h (.lf rest) hrest

theorem Whole.flatMap {α : Type} {xs : List α} {f : α → Chars} {g : α → List Statement}
    (h : ∀ x ∈ xs, Whole (f x) (g x)) : Whole (xs.flatMap f) (xs.flatMap g) := by
  induction xs with
  | nil => exact .nil
  | cons x xs ih =>
    rw [List.forall_mem_cons] at h
    exact h.1.append (ih h.2)

theorem Whole.lines {cs : Chars} {sts : List Statement} (h : Whole cs sts) : Lines cs sts := by
  have hempty : Lines [] [] := .last (.empty .nil)
  have hlines := h [] [] hempty
  rw [List.append_nil, List.append_nil] at hlines
  exact hlines

theorem named_quoted (name : String) : Named (quoted name) name := by
  have hnamed : Named (quoted name) (String.ofList name.toList) := .quoted (escaped_flatMap _)
  rw [String.ofList_toList] at hnamed
  exact hnamed

end Toml

/-! ## Members and sections -/

namespace Scalar

def tomlText : Scalar → Chars
  | boolean b => (toString b).toList
  | string s => quoted s
  | integer i => (toString i.toInt).toList

/-- The line of a member. -/
def tomlLine (m : String × Scalar) : Chars := quoted m.1 ++ ' ' :: '=' :: ' ' :: m.2.tomlText

theorem spelled_tomlText (v : Scalar) : Spelled v.tomlText v.toToml := by
  cases v with
  | boolean b => exact .boolean b
  | integer i => exact .integer i.toInt
  | string s =>
    have hspelled : Spelled (quoted s) (.string (String.ofList s.toList)) :=
      .string (Toml.escaped_flatMap _)
    rw [String.ofList_toList] at hspelled
    exact hspelled

theorem line_tomlLine (m : String × Scalar) : Line (tomlLine m) [statement m] := by
  have hblank : ∀ c ∈ [' '], Toml.isBlank c = true := List.forall_mem_singleton.mpr rfl
  have hline := Line.member (a := []) nofun (Toml.named_quoted m.1) hblank hblank
    m.2.spelled_tomlText .nil
  rw [List.append_nil] at hline
  exact hline

end Scalar

namespace Sheet

/-- The line of a header. -/
def headerLine (name : String) : Chars := '[' :: (name.toList ++ [']'])

def sectionText (s : String × List (String × Scalar)) : Chars :=
  headerLine s.1 ++ '\n' :: s.2.flatMap fun m => Scalar.tomlLine m ++ ['\n']

/-- The sheet as a TOML text. -/
def tomlText (d : Sheet) : String :=
  String.ofList ((d.extras.flatMap fun m => Scalar.tomlLine m ++ ['\n']) ++
    d.sections.flatMap sectionText)

example : tomlText ⟨[("a b", .integer (-3))], [("logging", [("filter", .string "x\n")])]⟩ =
    "\"a b\" = -3\n[logging]\n\"filter\" = \"x\\u000a\"\n" := by
  decide +kernel

theorem line_headerLine {name : String} (h : name = "output" ∨ name = "logging") :
    Line (headerLine name) [.header ⟨[], name⟩] := by
  have hnamed : Named name.toList name := by
    have hbare (hne : name.toList ≠ []) (hchars : ∀ c ∈ name.toList, Toml.isNameChar c = true) :
        Named name.toList name := by
      have hnamed := Named.bare hne hchars
      rw [String.ofList_toList] at hnamed
      exact hnamed
    rcases h with rfl | rfl
    · exact hbare nofun (List.all_eq_true.mp rfl)
    · exact hbare nofun (List.all_eq_true.mp rfl)
  exact Line.header (a := []) (b := []) (c := []) nofun nofun hnamed nofun .nil

theorem whole_members (ms : List (String × Scalar)) :
    Toml.Whole (ms.flatMap fun m => Scalar.tomlLine m ++ ['\n']) (ms.map Scalar.statement) := by
  rw [List.map_eq_flatMap]
  exact .flatMap fun m _ => .line (Scalar.line_tomlLine m)

theorem whole_section {s : String × List (String × Scalar)}
    (h : s.1 = "output" ∨ s.1 = "logging") :
    Toml.Whole (sectionText s) (sectionStatements s) := by
  have hwhole := (Toml.Whole.line (line_headerLine h)).append (whole_members s.2)
  rw [List.append_assoc] at hwhole
  exact hwhole

end Sheet

/-- The text of a sheet says what the sheet says. -/
theorem tomlSheet_text {d : Sheet} (h : d.WellFormed) : TomlSheet d.tomlText d := by
  rw [TomlSheet, Sheet.tomlText, String.toList_ofList]
  exact ((Sheet.whole_members d.extras).append
    (.flatMap fun s hs => Sheet.whole_section (h.known s hs))).lines

end Untagged
