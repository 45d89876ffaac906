import Mathlib.Data.List.Forall2
import GraphqlClient.Declaration.Basic
import GraphqlClient.Text.Lines

/-!
# Scanning template literals

A scanner starts in code, where a backtick opens a template. Inside a template a backslash makes the
next character literal, a backtick closes the template, and a dollar before an opening brace opens a
hole that ends at the next closing brace. The line ends of a template stand for themselves.

An escaped text scans back to the text, whatever it holds, and a declaration scans to its definition
and its holes.
-/

namespace GraphqlClient.Template

/-- A part of a template: a character, or a hole with what stands in it. -/
inductive Piece where
  | char (c : Char)
  | hole (content : List Char)
  deriving DecidableEq, Repr

/-- Where a scanner is; after a dollar it is not decided yet whether a hole opens. -/
inductive Place where
  | code
  | template
  | backslash
  | dollar
  | hole (content : List Char)
  deriving DecidableEq, Repr

/-- A scanner: its place, the pieces of the open template, and the templates closed before. -/
structure Scanner where
  place : Place
  pieces : List Piece
  closed : List (List Piece)
  deriving DecidableEq, Repr

namespace Scanner

/-- No character was scanned. -/
def start : Scanner := ⟨.code, [], []⟩

/-- Scan a character of a template. -/
def stepTemplate (s : Scanner) (c : Char) : Scanner :=
  if c = '\\' then { s with place := .backslash }
  else if c = '\x60' then ⟨.code, [], s.closed ++ [s.pieces]⟩
  else if c = '$' then { s with place := .dollar }
  else ⟨.template, s.pieces ++ [.char c], s.closed⟩

/-- Scan a character. -/
def step (s : Scanner) (c : Char) : Scanner :=
  match s.place with
  | .code => if c = '\x60' then ⟨.template, [], s.closed⟩ else s
  | .template => s.stepTemplate c
  | .backslash => ⟨.template, s.pieces ++ [.char c], s.closed⟩
  | .dollar =>
    if c = '{' then { s with place := .hole [] }
    else stepTemplate ⟨.template, s.pieces ++ [.char '$'], s.closed⟩ c
  | .hole content =>
    if c = '}' then ⟨.template, s.pieces ++ [.hole content], s.closed⟩
    else { s with place := .hole (content ++ [c]) }

/-- Scan a text. -/
def run (s : Scanner) (text : List Char) : Scanner := text.foldl step s

/-- Scanning goes on where it stopped. -/
theorem run_append (s : Scanner) (xs ys : List Char) : s.run (xs ++ ys) = (s.run xs).run ys :=
  List.foldl_append

/-- Code without backticks is passed over. -/
theorem run_code (closed : List (List Piece)) {text : List Char} (h : '\x60' ∉ text) :
    run ⟨.code, [], closed⟩ text = ⟨.code, [], closed⟩ := by
  induction text with
  | nil => rfl
  | cons c cs ih =>
    obtain ⟨hc, hcs⟩ := not_or.mp (List.mem_cons.not.mp h)
    change run (step _ c) cs = _
    have hstep : step ⟨.code, [], closed⟩ c = ⟨.code, [], closed⟩ := by
      change (if c = '\x60' then _ else _) = _
      rw [if_neg (Ne.symm hc)]
    rw [hstep]
    exact ih hcs

/-- A character without meaning of its own stands for itself. -/
theorem step_char (pieces : List Piece) (closed : List (List Piece)) {c : Char} (hslash : c ≠ '\\')
    (htick : c ≠ '\x60') (hdollar : c ≠ '$') :
    step ⟨.template, pieces, closed⟩ c = ⟨.template, pieces ++ [.char c], closed⟩ := by
  change stepTemplate _ c = _
  rw [stepTemplate, if_neg hslash, if_neg htick, if_neg hdollar]

/-- A character of a hole that does not close it belongs to the hole. -/
theorem step_hole (content : List Char) (pieces : List Piece) (closed : List (List Piece))
    {c : Char} (h : c ≠ '}') :
    step ⟨.hole content, pieces, closed⟩ c = ⟨.hole (content ++ [c]), pieces, closed⟩ := by
  change (if c = '}' then _ else _) = _
  rw [if_neg h]

/-- A dollar that opens no hole stands for itself. -/
theorem step_dollar (pieces : List Piece) (closed : List (List Piece)) {c : Char} (h : c ≠ '{') :
    step ⟨.dollar, pieces, closed⟩ c = step ⟨.template, pieces ++ [.char '$'], closed⟩ c := by
  change (if c = '{' then _ else _) = _
  rw [if_neg h]
  rfl

end Scanner

/-- An escaped text starts with no brace unless the text does. -/
theorem escape_append_ne_brace {text rest : List Char} (htext : ∀ cs, text ≠ '{' :: cs)
    (hrest : ∀ cs, rest ≠ '{' :: cs) (cs : List Char) : escape text ++ rest ≠ '{' :: cs := by
  fun_cases escape text with
  | case1 => exact hrest cs
  | case2 text => simp
  | case3 text => simp
  | case4 text => simp
  | case5 c text =>
    intro h
    exact htext text (by simp_all)

namespace Scanner

/-- A dollar before anything but a brace stands for itself. -/
theorem run_dollar (pieces : List Piece) (closed : List (List Piece)) {text : List Char}
    (hne : text ≠ []) (h : ∀ cs, text ≠ '{' :: cs) :
    run ⟨.dollar, pieces, closed⟩ text =
      run ⟨.template, pieces ++ [.char '$'], closed⟩ text := by
  cases text with
  | nil => exact absurd rfl hne
  | cons c cs =>
    have hc : c ≠ '{' := fun heq => h cs (by rw [heq])
    change run (step _ c) cs = run (step _ c) cs
    rw [step_dollar pieces closed hc]

/-- An escaped text scans back to the text, if something but a brace follows. -/
theorem run_escape (text : List Char) (pieces : List Piece) (closed : List (List Piece))
    {rest : List Char} (hne : rest ≠ []) (hrest : ∀ cs, rest ≠ '{' :: cs) :
    run ⟨.template, pieces, closed⟩ (escape text ++ rest) =
      run ⟨.template, pieces ++ text.map .char, closed⟩ rest := by
  induction text using escape.induct generalizing pieces with
  | case1 => simp [escape]
  | case2 text ih =>
    change run ⟨.template, pieces ++ [.char '\\'], closed⟩ (escape text ++ rest) = _
    rw [ih]
    simp
  | case3 text ih =>
    change run ⟨.template, pieces ++ [.char '\x60'], closed⟩ (escape text ++ rest) = _
    rw [ih]
    simp
  | case4 text ih =>
    change run ⟨.template, pieces ++ [.char '$'] ++ [.char '{'], closed⟩ (escape text ++ rest) = _
    rw [ih]
    simp
  | case5 c text hslash htick hdollar ih =>
    rw [escape.eq_5 c text hslash htick hdollar, List.cons_append]
    by_cases hc : c = '$'
    · subst hc
      have hbrace := escape_append_ne_brace (fun cs => hdollar cs rfl) hrest
      change run ⟨.dollar, pieces, closed⟩ (escape text ++ rest) = _
      rw [run_dollar pieces closed (by simp [hne]) hbrace, ih]
      simp
    · change run (step _ c) (escape text ++ rest) = _
      rw [step_char pieces closed hslash htick hc, ih]
      simp

/-- A hole is scanned up to its closing brace. -/
theorem run_hole_content (content : List Char) (pieces : List Piece) (closed : List (List Piece))
    (read : List Char) (h : '}' ∉ content) :
    run ⟨.hole read, pieces, closed⟩ (content ++ ['}']) =
      ⟨.template, pieces ++ [.hole (read ++ content)], closed⟩ := by
  induction content generalizing read with
  | nil => simp [run, step]
  | cons c content ih =>
    obtain ⟨hc, hcontent⟩ := not_or.mp (List.mem_cons.not.mp h)
    change run (step _ c) (content ++ ['}']) = _
    rw [step_hole _ _ _ (Ne.symm hc), ih (read ++ [c]) hcontent, List.append_assoc, List.singleton_append]

/-- The holes of a declaration, each on a line of its own, scan to newlines and holes. -/
theorem run_holes (constants : List String) (pieces : List Piece) (closed : List (List Piece))
    (h : ∀ constant ∈ constants, '}' ∉ constant.toList) :
    run ⟨.template, pieces, closed⟩
        (constants.flatMap fun constant => ("\n" ++ hole constant).toList) =
      ⟨.template, pieces ++ constants.flatMap fun constant =>
        [.char '\n', .hole constant.toList], closed⟩ := by
  induction constants generalizing pieces with
  | nil => simp [run]
  | cons constant constants ih =>
    obtain ⟨hconstant, hrest⟩ := List.forall_mem_cons.mp h
    have htext : ("\n" ++ hole constant).toList =
        ['\n', '$', '{'] ++ (constant.toList ++ ['}']) := by
      simp [hole]
    rw [List.flatMap_cons, run_append, htext, run_append]
    change run (run ⟨.hole [], pieces ++ [.char '\n'], closed⟩ (constant.toList ++ ['}'])) _ = _
    rw [run_hole_content _ _ _ _ hconstant, ih _ hrest]
    simp

end Scanner

/-- A text that leads from code back to code, with the templates that are found in it. -/
def Scans (text : String) (templates : List (List Piece)) : Prop :=
  ∀ closed, Scanner.run ⟨.code, [], closed⟩ text.toList = ⟨.code, [], closed ++ templates⟩

namespace Scans

/-- There are no templates in code without backticks. -/
theorem of_code {text : String} (h : '\x60' ∉ text.toList) : Scans text [] := by
  intro closed
  rw [Scanner.run_code closed h, List.append_nil]

/-- The templates of texts one after the other. -/
theorem append {x y : String} {xs ys : List (List Piece)} (hx : Scans x xs) (hy : Scans y ys) :
    Scans (x ++ y) (xs ++ ys) := by
  intro closed
  rw [String.toList_append, Scanner.run_append, hx, hy, List.append_assoc]

/-- The templates of texts with code between them. -/
theorem intercalate {separator : String} (hseparator : '\x60' ∉ separator.toList)
    {texts : List String} {templates : List (List (List Piece))}
    (h : List.Forall₂ Scans texts templates) :
    Scans (separator.intercalate texts) templates.flatten := by
  induction h with
  | nil => exact of_code (by simp)
  | @cons text found texts templates htext hrest ih =>
    cases hrest with
    | nil => simpa using htext
    | @cons text' found' texts templates _ _ =>
      have hcode : Scans separator [] := of_code hseparator
      rw [String.intercalate_cons_cons]
      simpa using (htext.append hcode).append ih

end Scans

/-- What a template stands for: a newline, a definition without blanks at its end, and some
constants in holes, each on a line of its own. -/
def denoted (definition : String) (constants : List String) : List Piece :=
  ('\n' :: Text.trimEnd definition.toList).map .char ++
    constants.flatMap fun constant => [.char '\n', .hole constant.toList]

/-- The holes of a declaration, character by character. -/
theorem toList_holes (d : Declaration) :
    d.holes.toList = d.interpolated.flatMap fun constant => ("\n" ++ hole constant).toList := by
  rw [Declaration.holes, String.toList_join, List.flatMap_map]

/-- A declaration holds one template, which stands for its definition and its constants. -/
theorem scans_declaration (d : Declaration) (hconstant : '\x60' ∉ d.constant.toList)
    (hinterpolated : ∀ constant ∈ d.interpolated, '}' ∉ constant.toList) :
    Scans d.text [denoted d.definition d.interpolated] := by
  intro closed
  have hhead : '\x60' ∉ ("export const " ++ d.constant ++ " = gql").toList := by
    simp [hconstant]
  have htext : d.text.toList = ("export const " ++ d.constant ++ " = gql").toList ++
      ('\x60' :: '\n' :: (escape (Text.trimEnd d.definition.toList) ++
        (d.holes.toList ++ ['\x60', ';']))) := by
    change ("export const " ++ d.constant ++ " = gql\x60\n" ++ d.body ++ d.holes ++ "\x60;").toList = _
    simp [Declaration.body]
  have hbrace : ∀ cs, d.holes.toList ++ ['\x60', ';'] ≠ '{' :: cs := by
    intro cs
    rw [toList_holes]
    cases d.interpolated <;> simp
  rw [htext, Scanner.run_append, Scanner.run_code closed hhead]
  change Scanner.run ⟨.template, [.char '\n'], closed⟩ _ = _
  rw [Scanner.run_escape _ _ _ (by simp) hbrace, Scanner.run_append, toList_holes,
    Scanner.run_holes _ _ _ hinterpolated]
  rfl

end GraphqlClient.Template
