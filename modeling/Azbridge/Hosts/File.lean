import Mathlib.Data.List.Infix
import Mathlib.Logic.Function.Basic
import Azbridge.Lib.Lines
import Azbridge.Hosts.Allocation

/-!
# The hosts file

Each tag has a block of the file to itself. Merging writes the block, commenting out other lines for
its hostnames if asked to; removing takes it out and restores those lines.
-/

namespace Azbridge.Hosts
open Lines Text

def azbridge : List Char := ['a', 'z', 'b', 'r', 'i', 'd', 'g', 'e']

/-- `# >>> azbridge {tag} >>>`. -/
def beginMarker (tag : List Char) : List Char :=
  ['#', ' ', '>', '>', '>', ' '] ++ azbridge ++ [' '] ++ tag ++ [' ', '>', '>', '>']

/-- `# <<< azbridge {tag} <<<`. -/
def endMarker (tag : List Char) : List Char :=
  ['#', ' ', '<', '<', '<', ' '] ++ azbridge ++ [' '] ++ tag ++ [' ', '<', '<', '<']

/-- `#azbridge-disabled[{tag}]: `. -/
def disabledMarker (tag : List Char) : List Char :=
  ['#'] ++ azbridge ++ ['-', 'd', 'i', 's', 'a', 'b', 'l', 'e', 'd', '['] ++ tag ++ [']', ':', ' ']

/-- The line of the block for a hostname and its address. -/
def entryLine (entry : List Char × List Char) : List Char := entry.2 ++ ' ' :: entry.1

def blockLines (tag : List Char) (addresses : Addresses) : List (List Char) :=
  beginMarker tag :: addresses.map entryLine ++ [endMarker tag]

def renderBlock (tag : List Char) (addresses : Addresses) (newline : List Char) : List Char :=
  newline.intercalate (blockLines tag addresses) ++ newline

def validateTag (tag : List Char) : Bool :=
  !(tag.isEmpty || decide (64 < utf8Length tag)) && tag.all isNameChar

def newlineOf (text : List Char) : List Char := if crlf <:+: text then crlf else lf

/-- The name and address that a line inside a block records. -/
def readLine (line : List Char) : Option (List Char × List Char) :=
  match splitWhitespace line with
  | ip :: name :: _ => some (normalizeHostname name, ip)
  | _ => none

/-- `entries.insert`, if the line records something. -/
def addEntry (entries : Existing) (line : List Char) : Existing :=
  match readLine line with
  | some (name, ip) => Function.update entries name (some ip)
  | none => entries

def readEntries (tag : List Char) : Bool → List (List Char) → Existing → Existing
  | _, [], entries => entries
  | inside, line :: rest, entries =>
    let line := trimList line
    if line = beginMarker tag then readEntries tag true rest entries
    else if line = endMarker tag then readEntries tag false rest entries
    else if inside then readEntries tag true rest (addEntry entries line)
    else readEntries tag false rest entries

/-- Addresses recorded in this tag's block, so that applying again never moves them. -/
def existingEntries (text tag : List Char) : Existing := readEntries tag false (lines text) fun _ => none

def restore (tag line : List Char) : List Char := (stripPrefixList (disabledMarker tag) line).getD line

def withoutBlock (tag : List Char) : Bool → List (List Char) → List (List Char)
  | _, [] => []
  | inside, line :: rest =>
    let trimmed := trimList line
    if trimmed = beginMarker tag then withoutBlock tag true rest
    else if trimmed = endMarker tag then withoutBlock tag false rest
    else if inside then withoutBlock tag true rest
    else restore tag line :: withoutBlock tag false rest

def popEmpty (ls : List (List Char)) : List (List Char) := (ls.reverse.dropWhile List.isEmpty).reverse

def removeBlock (text tag : List Char) : List Char :=
  let newline := newlineOf text
  let out := popEmpty (withoutBlock tag false (lines text))
  if out.isEmpty then [] else newline.intercalate out ++ newline

/-! ### Merging a block -/

/-- The hostnames that an active line maps: the words after the first, before any comment. -/
def mappedNames (line : List Char) : List (List Char) := (splitWhitespace (line.takeWhile (· != '#'))).drop 1

def mapsAny (names : List (List Char)) (line : List Char) : Bool :=
  (mappedNames line).any fun name => names.contains (normalizeHostname name)

def conflicts (ls : List (List Char)) (names : List (List Char)) : List (Nat × List Char) :=
  (ls.zipIdx.filter fun line => mapsAny names line.1).map fun line => (line.2, line.1)

def conflictHosts (found : List (Nat × List Char)) (names : List (List Char)) : List (List Char) :=
  sortedSet (found.flatMap fun line => ((mappedNames line.2).map normalizeHostname).filter names.contains)

def conflictMessage (hosts : List (List Char)) : String :=
  "The hosts file already maps " ++ toString hosts.length ++ " of these hostnames (" ++
    String.ofList (", ".toList.intercalate hosts) ++ "). Re-run with --replace-existing to comment those lines out " ++
    "(restored by `azbridge hosts remove`)."

/-- `lines[index] = disabled_marker + lines[index]` for each of these lines. -/
def disableAt (tag : List Char) (indexes : List Nat) (ls : List (List Char)) : List (List Char) :=
  indexes.foldl (fun ls index => ls.modify index (disabledMarker tag ++ ·)) ls

/-- The text of the lines, ending in a line ending that a block can follow. -/
def finishLines (newline : List Char) (ls : List (List Char)) : List Char :=
  let ls := if ls.getLast?.any (fun line => !line.isEmpty) then ls ++ [[]] else ls
  let result := newline.intercalate ls
  if ¬ result.isEmpty = true ∧ ¬ newline.isSuffixOf result = true then result ++ newline else result

def mergeBlock (text tag : List Char) (addresses : Addresses) (replaceExisting : Bool) : Except String (List Char) :=
  let newline := newlineOf text
  let base := lines (removeBlock text tag)
  let names := addresses.map (·.1)
  let found := conflicts base names
  if ¬ found.isEmpty = true ∧ replaceExisting = false then .error (conflictMessage (conflictHosts found names))
  else
    .ok (finishLines newline (disableAt tag (found.map (·.1)) base) ++ renderBlock tag addresses newline)

/-! ### Text and lines -/

theorem newlineOf_cases (text : List Char) :
    crlf <:+: text ∧ newlineOf text = crlf ∨ ¬ crlf <:+: text ∧ newlineOf text = lf := by
  by_cases h : crlf <:+: text
  · exact .inl ⟨h, if_pos h⟩
  · exact .inr ⟨h, if_neg h⟩

/-- What is left of a line when it is written and read again. -/
def settle (newline line : List Char) : List Char := if newline = crlf then line else chomp line

theorem settle_crlf : settle crlf = id := by
  funext line
  simp [settle]

theorem settle_lf : settle lf = chomp := by
  funext line
  simp [settle, lf, crlf]

theorem lines_unlines {text : List Char} {ls : List (List Char)} (within : ∀ line ∈ ls, '\n' ∉ line) :
    lines (unlines (newlineOf text) ls) = ls.map (settle (newlineOf text)) := by
  rcases newlineOf_cases text with ⟨-, same⟩ | ⟨-, same⟩
  · have read := lines_unlines_crlf_append within []
    rw [same, settle_crlf]
    simpa [lines_nil] using read
  · have read := lines_unlines_lf_append within []
    rw [same, settle_lf]
    simpa [lines_nil] using read

theorem trimList_settle (newline line : List Char) : trimList (settle newline line) = trimList line := by
  unfold settle chomp
  split
  · rfl
  · split
    · next ended =>
      obtain ⟨before, rfl⟩ := List.getLast?_eq_some_iff.mp ended
      rw [List.dropLast_concat, trimList_last rfl]
    · rfl

theorem removeBlock_eq (text tag : List Char) :
    removeBlock text tag = unlines (newlineOf text) (popEmpty (withoutBlock tag false (lines text))) := by
  unfold removeBlock
  by_cases empty : popEmpty (withoutBlock tag false (lines text)) = []
  · simp [empty, unlines]
  · simp [empty, intercalate_append empty]

/-- The lines without an empty line at the end. -/
def dropEmptyLast (ls : List (List Char)) : List (List Char) := if ls.getLast? = some [] then ls.dropLast else ls

theorem unlines_dropLast {newline : List Char} {ls : List (List Char)} (last : ls.getLast? = some []) :
    newline.intercalate ls = unlines newline ls.dropLast := by
  obtain ⟨before, rfl⟩ := List.getLast?_eq_some_iff.mp last
  rw [List.dropLast_concat]
  induction before with
  | nil => rfl
  | cons line before ih =>
    have tail := ih (by simp)
    rw [List.cons_append, List.intercalate_cons_of_ne_nil (by simp), tail]
    simp [unlines]

theorem suffix_unlines {newline : List Char} {ls : List (List Char)} (some_ : ls ≠ []) : newline <:+ unlines newline ls := by
  obtain ⟨before, last, rfl⟩ := List.eq_nil_or_concat ls |>.resolve_left some_
  rw [List.concat_eq_append, unlines_append]
  exact ⟨unlines newline before ++ last, by simp [unlines]⟩

theorem finishLines_eq {newline : List Char} (ls : List (List Char)) :
    finishLines newline ls = unlines newline (dropEmptyLast ls) := by
  have joined : newline.intercalate (if ls.getLast?.any (fun line => !line.isEmpty) then ls ++ [[]] else ls) =
      unlines newline (dropEmptyLast ls) := by
    unfold dropEmptyLast
    cases last : ls.getLast? with
    | none =>
      obtain rfl := List.getLast?_eq_none_iff.mp last
      rfl
    | some line =>
      by_cases empty : line = []
      · subst empty
        simp [unlines_dropLast last]
      · have pushed : newline.intercalate (ls ++ [[]]) = unlines newline (ls ++ [[]]).dropLast := unlines_dropLast (by simp)
        simp [empty, pushed]
  simp only [finishLines, joined]
  refine if_neg fun h => ?_
  by_cases none_ : dropEmptyLast ls = []
  · exact h.1 (by simp [none_, unlines])
  · exact h.2 (List.isSuffixOf_iff_suffix.mpr (suffix_unlines none_))

/-! ### Commenting out -/

/-- Comment the line out if it maps one of the names. -/
def disable (tag : List Char) (names : List (List Char)) (line : List Char) : List Char :=
  if mapsAny names line then disabledMarker tag ++ line else line

theorem getElem?_disableAt {tag : List Char} {indexes : List Nat} (once : indexes.Nodup) (ls : List (List Char)) (i : Nat) :
    (disableAt tag indexes ls)[i]? = if i ∈ indexes then ls[i]?.map (disabledMarker tag ++ ·) else ls[i]? := by
  induction indexes generalizing ls with
  | nil => simp [disableAt]
  | cons index rest ih =>
    have cut := List.nodup_cons.mp once
    have tail := ih cut.2 (ls.modify index (disabledMarker tag ++ ·))
    unfold disableAt at tail ⊢
    rw [List.foldl_cons, tail, List.getElem?_modify]
    by_cases here : i = index
    · subst here
      simp [cut.1]
    · simp [here, Ne.symm here]

theorem mem_conflicts {ls names : List (List Char)} {i : Nat} {line : List Char} :
    (i, line) ∈ conflicts ls names ↔ ls[i]? = some line ∧ mapsAny names line = true := by
  simp only [conflicts, List.mem_map, List.mem_filter, Prod.exists, Prod.mk.injEq]
  constructor
  · rintro ⟨l, j, ⟨member, maps⟩, rfl, rfl⟩
    exact ⟨List.mem_zipIdx_iff_getElem?.mp member, maps⟩
  · rintro ⟨held, maps⟩
    exact ⟨line, i, ⟨List.mem_zipIdx_iff_getElem?.mpr held, maps⟩, rfl, rfl⟩

theorem disableAt_conflicts (tag : List Char) (ls names : List (List Char)) :
    disableAt tag ((conflicts ls names).map (·.1)) ls = ls.map (disable tag names) := by
  have once : ((conflicts ls names).map (·.1)).Nodup := by
    have indexes : (ls.zipIdx.map (·.2)).Nodup := by
      rw [List.zipIdx_map_snd]
      exact List.nodup_range'
    unfold conflicts
    rw [List.map_map]
    exact (List.filter_sublist.map _).nodup indexes
  refine List.ext_getElem? fun i => ?_
  rw [getElem?_disableAt once, List.getElem?_map]
  cases held : ls[i]? with
  | none => simp
  | some line =>
    have found : i ∈ (conflicts ls names).map (·.1) ↔ mapsAny names line = true := by
      rw [List.mem_map]
      constructor
      · rintro ⟨⟨j, l⟩, member, rfl⟩
        obtain ⟨same, maps⟩ := mem_conflicts.mp member
        rw [held] at same
        cases same
        exact maps
      · exact fun maps => ⟨(i, line), mem_conflicts.mpr ⟨held, maps⟩, rfl⟩
    by_cases maps : mapsAny names line = true
    · simp [disable, maps, found.mpr maps]
    · simp [disable, maps, mt found.mp maps]

/-- When merging succeeds, and what it writes. -/
theorem mergeBlock_ok {text tag text' : List Char} {addresses : Addresses} {replaceExisting : Bool} :
    mergeBlock text tag addresses replaceExisting = .ok text' ↔
      (replaceExisting = true ∨ ∀ line ∈ lines (removeBlock text tag), mapsAny (addresses.map (·.1)) line = false) ∧
      text' = unlines (newlineOf text)
        (dropEmptyLast ((lines (removeBlock text tag)).map (disable tag (addresses.map (·.1)))) ++ blockLines tag addresses) := by
  have none_ : (conflicts (lines (removeBlock text tag)) (addresses.map (·.1))).isEmpty = true ↔
      ∀ line ∈ lines (removeBlock text tag), mapsAny (addresses.map (·.1)) line = false := by
    rw [List.isEmpty_iff, List.eq_nil_iff_forall_not_mem]
    constructor
    · intro free line member
      obtain ⟨i, held⟩ := List.mem_iff_getElem?.mp member
      by_contra maps
      exact free (i, line) (mem_conflicts.mpr ⟨held, by simpa using maps⟩)
    · rintro free ⟨i, line⟩ member
      obtain ⟨held, maps⟩ := mem_conflicts.mp member
      rw [free line (List.mem_of_getElem? held)] at maps
      cases maps
  have body : finishLines (newlineOf text) ((lines (removeBlock text tag)).map (disable tag (addresses.map (·.1)))) =
      unlines (newlineOf text) (dropEmptyLast ((lines (removeBlock text tag)).map (disable tag (addresses.map (·.1))))) :=
    finishLines_eq _
  have block : renderBlock tag addresses (newlineOf text) = unlines (newlineOf text) (blockLines tag addresses) :=
    intercalate_append (by simp [blockLines])
  simp only [mergeBlock]
  rw [disableAt_conflicts, body, block, ← unlines_append]
  simp only [none_]
  split
  · next blocked =>
    constructor
    · nofun
    · rintro ⟨asked | free, -⟩
      · rw [asked] at blocked
        cases blocked.2
      · exact absurd free blocked.1
  · next allowed =>
    rw [Except.ok.injEq]
    constructor
    · rintro rfl
      refine ⟨?_, rfl⟩
      by_cases free : ∀ line ∈ lines (removeBlock text tag), mapsAny (addresses.map (·.1)) line = false
      · exact .inr free
      · exact .inl (eq_true_of_ne_false fun kept => allowed ⟨free, kept⟩)
    · exact fun h => h.2.symm

end Azbridge.Hosts
