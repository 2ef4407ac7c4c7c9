/-!
# Lines of text

A text is taken apart into lines that end in `"\n"` or `"\r\n"`, and put together again with either
ending.
-/

namespace Lines

/-- The line without the carriage return of its line ending. -/
def chomp (line : List Char) : List Char := if line.getLast? = some '\r' then line.dropLast else line

/-- The lines of a text that was split at `'\n'`; what follows the last line ending is a line if it
is not empty. -/
def ofPieces : List (List Char) → List (List Char)
  | [] => []
  | [rest] => if rest = [] then [] else [rest]
  | piece :: pieces => chomp piece :: ofPieces pieces

/-- `str::lines`. -/
def lines (text : List Char) : List (List Char) := ofPieces (text.splitOn '\n')

def lf : List Char := ['\n']
def crlf : List Char := ['\r', '\n']

/-- Every line with its line ending. -/
def unlines (newline : List Char) (ls : List (List Char)) : List Char := ls.flatMap (· ++ newline)

theorem unlines_append (newline : List Char) (ls ls' : List (List Char)) :
    unlines newline (ls ++ ls') = unlines newline ls ++ unlines newline ls' := by
  simp [unlines]

/-- `lines.join(newline) + newline`. -/
theorem intercalate_append {newline : List Char} {ls : List (List Char)} (some_ : ls ≠ []) :
    newline.intercalate ls ++ newline = unlines newline ls := by
  induction ls with
  | nil => exact absurd rfl some_
  | cons line rest ih =>
    by_cases last : rest = []
    · subst last
      simp [unlines, List.intercalate_singleton]
    · rw [List.intercalate_cons_of_ne_nil last, List.append_assoc, ih last]
      simp [unlines]

theorem ofPieces_cons {piece : List Char} {pieces : List (List Char)} (more : pieces ≠ []) :
    ofPieces (piece :: pieces) = chomp piece :: ofPieces pieces := by
  cases pieces with
  | nil => exact absurd rfl more
  | cons => rfl

theorem lines_nil : lines [] = [] := rfl

theorem lines_cons {line : List Char} (within : '\n' ∉ line) (rest : List Char) :
    lines (line ++ '\n' :: rest) = chomp line :: lines rest := by
  rw [lines, List.splitOn_append_cons_self_of_not_mem within, ofPieces_cons (List.splitOn_ne_nil _ _), lines]

theorem lines_last {line : List Char} (within : '\n' ∉ line) (some_ : line ≠ []) : lines line = [line] := by
  rw [lines, List.splitOn_eq_singleton within]
  simp [ofPieces, some_]

theorem text_induction {P : List Char → Prop} (nil : P [])
    (last : ∀ line, '\n' ∉ line → line ≠ [] → P line)
    (cons : ∀ line rest, '\n' ∉ line → P rest → P (line ++ '\n' :: rest)) (text : List Char) : P text := by
  induction size : text.length using Nat.strongRecOn generalizing text with
  | ind n ih =>
    by_cases ended : '\n' ∈ text
    · obtain ⟨line, rest, rfl, within⟩ := List.eq_append_cons_of_mem ended
      refine cons line rest within (ih rest.length ?_ rest rfl)
      subst size
      simp
      omega
    · by_cases empty : text = []
      · exact empty ▸ nil
      · exact last text ended empty

theorem mem_chomp {line : List Char} {c : Char} (h : c ∈ chomp line) : c ∈ line := by
  unfold chomp at h
  split at h
  · exact List.dropLast_subset _ h
  · exact h

theorem newline_not_mem {text line : List Char} (h : line ∈ lines text) : '\n' ∉ line := by
  induction text using text_induction with
  | nil => cases h
  | last l within some_ =>
    rw [lines_last within some_, List.mem_singleton] at h
    exact h ▸ within
  | cons l rest within ih =>
    rw [lines_cons within] at h
    rcases List.mem_cons.mp h with rfl | later
    · exact fun member => within (mem_chomp member)
    · exact ih later

theorem chomp_of_getLast {line : List Char} (plain : line.getLast? ≠ some '\r') : chomp line = line := by
  simp [chomp, plain]

theorem chomp_append (line : List Char) : chomp (line ++ ['\r']) = line := by
  simp [chomp]

theorem lines_unlines_lf_append {ls : List (List Char)} (within : ∀ line ∈ ls, '\n' ∉ line) (rest : List Char) :
    lines (unlines lf ls ++ rest) = ls.map chomp ++ lines rest := by
  induction ls with
  | nil => rfl
  | cons line ls ih =>
    have head := within line (.head _)
    have tail := ih fun l member => within l (.tail _ member)
    simp only [unlines, List.flatMap_cons, lf, List.append_assoc, List.cons_append, List.nil_append] at tail ⊢
    rw [lines_cons head, tail]
    rfl

theorem lines_unlines_crlf_append {ls : List (List Char)} (within : ∀ line ∈ ls, '\n' ∉ line) (rest : List Char) :
    lines (unlines crlf ls ++ rest) = ls ++ lines rest := by
  induction ls with
  | nil => rfl
  | cons line ls ih =>
    have head : '\n' ∉ line ++ ['\r'] := by simpa using within line (.head _)
    have tail := ih fun l member => within l (.tail _ member)
    simp only [unlines, List.flatMap_cons, crlf, List.append_assoc, List.cons_append, List.nil_append] at tail ⊢
    have step := lines_cons head (unlines crlf ls ++ rest)
    simp only [unlines, crlf, List.append_assoc, List.cons_append, List.nil_append] at step
    rw [step, chomp_append, tail]

theorem crlf_infix_cons {line : List Char} (within : '\n' ∉ line) (rest : List Char) :
    crlf <:+: line ++ '\n' :: rest ↔ line.getLast? = some '\r' ∨ crlf <:+: rest := by
  induction line with
  | nil => simp [crlf, List.infix_cons_iff, List.prefix_iff_eq_take]
  | cons c line ih =>
    have tail := ih fun member => within (.tail _ member)
    rw [List.cons_append, List.infix_cons_iff, tail]
    cases line with
    | nil =>
      simp [crlf, List.cons_prefix_cons, eq_comm (a := '\r')]
    | cons d line =>
      have other : d ≠ '\n' := fun same => within (by simp [same])
      simp [crlf, List.cons_prefix_cons, other.symm]

theorem crlf_infix_lf {ls : List (List Char)} (within : ∀ line ∈ ls, '\n' ∉ line) :
    crlf <:+: unlines lf ls ↔ ∃ line ∈ ls, line.getLast? = some '\r' := by
  induction ls with
  | nil => simp [unlines, crlf]
  | cons line ls ih =>
    have tail := ih fun l member => within l (.tail _ member)
    have step := crlf_infix_cons (within line (.head _)) (unlines lf ls)
    simp only [unlines, lf, List.flatMap_cons, List.append_assoc, List.cons_append, List.nil_append] at step tail ⊢
    rw [step, tail]
    simp

theorem crlf_infix_crlf {ls : List (List Char)} (some_ : ls ≠ []) : crlf <:+: unlines crlf ls := by
  cases ls with
  | nil => exact absurd rfl some_
  | cons line ls =>
    exact ⟨line, unlines crlf ls, by simp [unlines]⟩

/-- In a text without `"\r\n"` only the last line can end in a carriage return. -/
theorem getLast_of_not_crlf {text : List Char} (plain : ¬ crlf <:+: text) {ls : List (List Char)} {line : List Char}
    (split : lines text = ls ++ [line]) : ∀ l ∈ ls, l.getLast? ≠ some '\r' := by
  induction text using text_induction generalizing ls with
  | nil => simp [lines_nil] at split
  | last l within some_ =>
    rw [lines_last within some_] at split
    cases ls with
    | nil => simp
    | cons a ls => simp at split
  | cons l rest within ih =>
    rw [crlf_infix_cons within, not_or] at plain
    rw [lines_cons within] at split
    cases ls with
    | nil => simp
    | cons a ls =>
      simp only [List.cons_append, List.cons.injEq] at split
      obtain ⟨rfl, later⟩ := split
      intro b member
      rcases List.mem_cons.mp member with rfl | member
      · rw [chomp_of_getLast plain.1]
        exact plain.1
      · exact ih plain.2 later b member

end Lines
