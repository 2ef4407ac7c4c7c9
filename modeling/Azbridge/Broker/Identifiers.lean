import Azbridge.Text

/-!
# Identifiers

UUIDs as the broker draws and accepts them, and the bytes behind base64url text.
-/

namespace Azbridge.Broker

def isHexLower (c : Char) : Bool := c.isDigit || (97 ≤ c.toNat && c.toNat ≤ 102)

def isHex (c : Char) : Bool := isHexLower c || (65 ≤ c.toNat && c.toNat ≤ 70)

structure Uuid where
  digits : List Char
  size : digits.length = 32
  hex : digits.all isHexLower = true
  deriving DecidableEq

namespace Uuid

/-- `Uuid::simple`. -/
def simple (u : Uuid) : String := String.ofList u.digits

def groups (u : Uuid) : List (List Char) :=
  [u.digits.take 8, (u.digits.drop 8).take 4, (u.digits.drop 12).take 4, (u.digits.drop 16).take 4, u.digits.drop 20]

/-- `Uuid::to_string`. -/
def hyphenated (u : Uuid) : String := String.ofList (['-'].intercalate u.groups)

def isHyphenated (cs : List Char) : Bool :=
  (cs.splitOn '-').map List.length == [8, 4, 4, 4, 12] && cs.all fun c => isHex c || c == '-'

/-- One of the texts of a UUID: its digits alone, with hyphens, in braces or as a URN. -/
def isText (s : String) : Bool :=
  let cs := s.toList
  if cs.length = 32 then cs.all isHex
  else if cs.length = 36 then isHyphenated cs
  else if cs.length = 38 then cs.head? == some '{' && cs.getLast? == some '}' && isHyphenated ((cs.drop 1).dropLast)
  else cs.length == 45 && "urn:uuid:".toList.isPrefixOf cs && isHyphenated (cs.drop 9)

theorem flatten_groups (u : Uuid) : u.groups.flatten = u.digits := by
  have pieces : ∀ ds : List Char,
      [ds.take 8, (ds.drop 8).take 4, (ds.drop 12).take 4, (ds.drop 16).take 4, ds.drop 20].flatten = ds := by
    intro ds
    have step : ∀ n, ds.drop n = (ds.drop n).take 4 ++ ds.drop (n + 4) := fun n => by
      rw [← List.drop_drop, List.take_append_drop]
    simp only [List.flatten_cons, List.flatten_nil, List.append_nil]
    rw [← step 16, ← step 12, ← step 8, List.take_append_drop]
  exact pieces u.digits

theorem isHex_of_lower {c : Char} (h : isHexLower c = true) : isHex c = true := by simp [isHex, h]

theorem hex_of_mem_group {u : Uuid} {g : List Char} {c : Char} (group : g ∈ u.groups) (member : c ∈ g) :
    isHexLower c = true := by
  have digit : c ∈ u.digits := by
    rw [← u.flatten_groups]
    exact List.mem_flatten.mpr ⟨g, group, member⟩
  exact List.all_eq_true.mp u.hex c digit

theorem splitOn_hyphenated (u : Uuid) : (u.hyphenated.toList).splitOn '-' = u.groups := by
  rw [hyphenated, String.toList_ofList]
  refine List.splitOn_intercalate _ ?_ (by simp [groups])
  intro g group dash
  exact absurd (hex_of_mem_group group dash) (by decide)

theorem mem_hyphenated {u : Uuid} {c : Char} (h : c ∈ u.hyphenated.toList) : isHexLower c = true ∨ c = '-' := by
  rw [hyphenated, String.toList_ofList] at h
  simp only [groups, List.intercalate_cons_cons, List.intercalate_singleton, List.mem_append,
    List.mem_singleton] at h
  have group := fun g (listed : g ∈ u.groups) (member : c ∈ g) => hex_of_mem_group listed member
  simp only [groups, List.mem_cons, List.not_mem_nil, or_false, forall_eq_or_imp, forall_eq] at group
  grind

theorem length_hyphenated (u : Uuid) : u.hyphenated.toList.length = 36 := by
  rw [hyphenated, String.toList_ofList]
  simp only [groups, List.intercalate_cons_cons, List.intercalate_singleton, List.length_append,
    List.length_take, List.length_drop, List.length_singleton, u.size]
  rfl

theorem isText_hyphenated (u : Uuid) : isText u.hyphenated = true := by
  have lengths : u.groups.map List.length = [8, 4, 4, 4, 12] := by
    simp [groups, u.size]
  have hex : (u.hyphenated.toList.all fun c => isHex c || c == '-') = true := by
    refine List.all_eq_true.mpr fun c member => ?_
    rcases mem_hyphenated member with digit | rfl
    · simp [isHex_of_lower digit]
    · rfl
  simp only [isText, length_hyphenated, isHyphenated, splitOn_hyphenated, lengths, hex]
  rfl

theorem digits_injective {u v : Uuid} (h : u.digits = v.digits) : u = v := by
  cases u
  cases v
  cases h
  rfl

theorem hyphenated_injective {u v : Uuid} (h : u.hyphenated = v.hyphenated) : u = v := by
  refine digits_injective ?_
  rw [← flatten_groups u, ← flatten_groups v, ← splitOn_hyphenated u, ← splitOn_hyphenated v, h]

/-- The digits can be told from whatever stands before them. -/
theorem simple_injective {u v : Uuid} {left right : String} (h : left ++ u.simple = right ++ v.simple) : u = v := by
  have chars := congrArg String.toList h
  simp only [String.toList_append, simple, String.toList_ofList] at chars
  exact digits_injective (List.append_inj_right' chars (u.size.trans v.size.symm))

end Uuid

/-- A digit of the URL-safe base64 alphabet. -/
def base64Value (c : Char) : Option Nat :=
  if c.isUpper then some (c.toNat - 65)
  else if c.isLower then some (c.toNat - 71)
  else if c.isDigit then some (c.toNat + 4)
  else if c = '-' then some 62
  else if c = '_' then some 63
  else none

/-- The number of bytes that a text in the URL-safe base64 alphabet without padding stands for. -/
def base64UrlSize (s : String) : Option Nat :=
  let cs := s.toList
  let last := (cs.getLast?.bind base64Value).getD 0
  if ¬ cs.all (fun c => (base64Value c).isSome) = true ∨ cs.length % 4 = 1 ∨
      (cs.length % 4 = 2 ∧ last % 16 ≠ 0) ∨ (cs.length % 4 = 3 ∧ last % 4 ≠ 0) then
    none
  else some (cs.length * 3 / 4)

end Azbridge.Broker
