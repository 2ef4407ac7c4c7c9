import Azbridge.Lib.Decimal
import Azbridge.Broker.Profiles

/-!
# Keys and paths of revisions

A row key holds twenty digits, which is as many as a `u64` needs, so keys of one profile are in the order of
their revisions. A path holds at least six, which is fewer, and ends where its digits end.
-/

namespace Azbridge.Broker
open Profiles

variable {id id' ws ws' : String} {m n : Nat}

theorem padded_length {width : Nat} (some_ : 0 < width) (fits : n < 10 ^ width) : (Text.padded width n).length = width := by
  have digits : (Nat.toDigits 10 n).length ≤ width := (Nat.length_toDigits_le_iff (by decide) some_).mpr fits
  unfold Text.padded
  rw [List.length_append, List.length_replicate]
  omega

theorem padded_twenty (bound : n < Text.u64) : (Text.padded 20 n).length = 20 :=
  padded_length (by decide) (Nat.lt_trans bound (by decide))

theorem revisionKey_toList : (revisionKey id n).toList = id.toList ++ ':' :: Text.padded 20 n := by
  unfold revisionKey
  simp

theorem colon_not_mem_padded {width : Nat} : ':' ∉ Text.padded width n := by
  intro member
  exact absurd (Text.isDigit_of_mem_padded member) (by decide)

/-- The digits are what follows the last colon. -/
theorem revisionKey_inj : revisionKey id m = revisionKey id' n ↔ id = id' ∧ m = n := by
  constructor
  · intro same
    have lists := congrArg String.toList same
    rw [revisionKey_toList, revisionKey_toList] at lists
    obtain ⟨ids, digits⟩ := Text.cut_injective colon_not_mem_padded colon_not_mem_padded lists
    exact ⟨String.toList_inj.mp ids, Text.padded_injective digits⟩
  · rintro ⟨rfl, rfl⟩
    rfl

theorem cons_lt_cons_self {c : Char} {as bs : List Char} : c :: as < c :: bs ↔ as < bs := by
  have irrefl : ¬ c < c := fun less => Nat.lt_irrefl _ (UInt32.lt_iff_toNat_lt.mp less)
  rw [List.cons_lt_cons_iff]
  constructor
  · rintro (less | ⟨-, less⟩)
    · exact absurd less irrefl
    · exact less
  · intro less
    exact .inr ⟨rfl, less⟩

theorem append_lt_append_iff {p as bs : List Char} : p ++ as < p ++ bs ↔ as < bs := by
  induction p with
  | nil => rfl
  | cons c p ih => rw [List.cons_append, List.cons_append, cons_lt_cons_self, ih]

theorem revisionKey_lt (bound : m < Text.u64) (bound' : n < Text.u64) : revisionKey id m < revisionKey id n ↔ m < n := by
  have lists : revisionKey id m < revisionKey id n ↔ Text.padded 20 m < Text.padded 20 n := by
    show (revisionKey id m).toList < (revisionKey id n).toList ↔ _
    rw [revisionKey_toList, revisionKey_toList, append_lt_append_iff, cons_lt_cons_self]
  have same : (Text.padded 20 m).length = (Text.padded 20 n).length := by rw [padded_twenty bound, padded_twenty bound']
  rw [lists, Decimal.lt_iff (fun _ => Text.isDigit_of_mem_padded) (fun _ => Text.isDigit_of_mem_padded) same,
    Text.ofDigitChars_padded, Text.ofDigitChars_padded]

/-- `starts_with(format!("{id}:"))`. -/
def hasPrefix (id : String) (e : Entity Value) : Bool := (id ++ ":").toList.isPrefixOf e.rowKey.toList

theorem hasPrefix_iff {e : Entity Value} (plain : ':' ∉ id.toList) (plain' : ':' ∉ id'.toList) (keyed : e.rowKey = revisionKey id' n) :
    hasPrefix id e = true ↔ id' = id := by
  unfold hasPrefix
  rw [keyed, revisionKey_toList, List.isPrefixOf_iff_prefix, String.toList_append]
  constructor
  · rintro ⟨rest, same⟩
    rw [List.append_assoc] at same
    have cut : ∀ {a : String} (b : List Char), ':' ∉ a.toList → Text.splitOnce ':' (String.ofList (a.toList ++ ':' :: b)) =
        some (a, String.ofList b) := by
      intro a b first
      rw [Text.splitOnce_append b first, String.ofList_toList]
    have first := cut rest plain
    have second := cut (Text.padded 20 n) plain'
    rw [← same] at second
    have equal := Option.some.inj (first.symm.trans second)
    exact (Prod.mk.inj equal).1.symm
  · rintro rfl
    exact ⟨Text.padded 20 n, by rw [List.append_assoc]; rfl⟩

/-- The revisions of all these rows. -/
def loadAll (ws id : String) : List (Entity Value) → Handler (List ConfigRevision)
  | [] => return []
  | entity :: rest => do
    let record : RevisionRecord ← decode entity.data
    let first ← revision ws id record.revision
    return first :: (← loadAll ws id rest)

theorem loadRevisions_eq (entities : List (Entity Value)) :
    loadRevisions ws id entities = loadAll ws id (entities.filter (hasPrefix id)) := by
  induction entities with
  | nil => rfl
  | cons entity rest ih =>
    unfold loadRevisions
    rw [List.filter_cons, ih]
    unfold hasPrefix
    split
    · rfl
    · rfl

theorem revisionPath_ok {r path : String} (h : revisionPath ws id r = .ok path) :
    pathSegment ws = true ∧ pathSegment id = true ∧ ∃ n, Text.parseU64 r = some n ∧
      path.toList = "profiles/".toList ++ (ws.toList ++ '/' :: (id.toList ++ '/' :: (Text.padded 6 n ++ ".yaml".toList))) := by
  unfold revisionPath at h
  split at h
  · cases h
  · next segments =>
    obtain ⟨first, second⟩ := not_or.mp segments
    split at h
    · cases h
    · next n parsed =>
      obtain rfl := Except.ok.inj h
      refine ⟨by simpa using first, by simpa using second, n, parsed, ?_⟩
      simp only [String.toList_append, String.toList_ofList, List.append_assoc]
      rfl

theorem slash_not_mem (segment : pathSegment ws = true) : '/' ∉ ws.toList := by
  intro member
  unfold pathSegment at segment
  have all := (Bool.and_eq_true_iff.mp segment).2
  exact absurd (List.all_eq_true.mp all '/' member) (by decide)

theorem cut_first {separator : Char} {a a' b b' : List Char} (clean : separator ∉ a) (clean' : separator ∉ a')
    (same : a ++ separator :: b = a' ++ separator :: b') : a = a' ∧ b = b' := by
  have reversed := congrArg List.reverse same
  simp only [List.reverse_append, List.reverse_cons, List.append_assoc, List.singleton_append] at reversed
  obtain ⟨tails, heads⟩ := Text.cut_injective (by simpa using clean) (by simpa using clean') reversed
  exact ⟨List.reverse_injective heads, List.reverse_injective tails⟩

theorem revisionPath_inj {r r' path path' : String} (accepted : revisionPath ws id r = .ok path)
    (accepted' : revisionPath ws' id' r' = .ok path') :
    path = path' ↔ ws = ws' ∧ id = id' ∧ Text.parseU64 r = Text.parseU64 r' := by
  constructor
  · intro same
    obtain ⟨first, second, n, parsed, lists⟩ := revisionPath_ok accepted
    obtain ⟨first', second', n', parsed', lists'⟩ := revisionPath_ok accepted'
    rw [same, lists'] at lists
    have afterStart := List.append_cancel_left lists
    obtain ⟨workspaces, rest⟩ := cut_first (slash_not_mem first') (slash_not_mem first) afterStart
    obtain ⟨profiles, ends⟩ := cut_first (slash_not_mem second') (slash_not_mem second) rest
    have digits := Text.padded_injective (List.append_cancel_right ends)
    rw [parsed, parsed', digits]
    exact ⟨(String.toList_inj.mp workspaces).symm, (String.toList_inj.mp profiles).symm, rfl⟩
  · rintro ⟨rfl, rfl, numbers⟩
    have paths : revisionPath ws id r = revisionPath ws id r' := by
      unfold revisionPath
      rw [numbers]
    exact Except.ok.inj (accepted.symm.trans (paths.trans accepted'))

/-- Keys are of one profile and revision and in the order of revisions; what is listed by a profile's prefix is what
is kept under its keys; and paths are equal for one workspace, profile and number only. -/
theorem revision_keys_and_paths :
    (∀ id id' m n, ':' ∉ id.toList → ':' ∉ id'.toList → m < Text.u64 → n < Text.u64 →
      (revisionKey id m = revisionKey id' n ↔ id = id' ∧ m = n) ∧ (revisionKey id m < revisionKey id n ↔ m < n)) ∧
    (∀ ws id entities, ':' ∉ id.toList →
      (∀ e ∈ entities, ∃ id' n, ':' ∉ id'.toList ∧ n < Text.u64 ∧ e.rowKey = revisionKey id' n) →
      ∃ listed, loadRevisions ws id entities = loadAll ws id listed ∧ listed.Sublist entities ∧
        ∀ e ∈ entities, e ∈ listed ↔ ∃ n, n < Text.u64 ∧ e.rowKey = revisionKey id n) ∧
    ∀ ws ws' id id' r r' path path', revisionPath ws id r = .ok path → revisionPath ws' id' r' = .ok path' →
      (path = path' ↔ ws = ws' ∧ id = id' ∧ Text.parseU64 r = Text.parseU64 r') := by
  refine ⟨?_, ?_, ?_⟩
  · intro id id' m n _ _ bound bound'
    exact ⟨revisionKey_inj, revisionKey_lt bound bound'⟩
  · intro ws id entities plain keyed
    refine ⟨entities.filter (hasPrefix id), loadRevisions_eq entities, List.filter_sublist, ?_⟩
    intro e member
    obtain ⟨id', n, plain', bound, key⟩ := keyed e member
    rw [List.mem_filter, hasPrefix_iff plain plain' key]
    constructor
    · rintro ⟨-, rfl⟩
      exact ⟨n, bound, key⟩
    · rintro ⟨n', -, own⟩
      exact ⟨member, (revisionKey_inj.mp (key.symm.trans own)).1⟩
  · intro ws ws' id id' r r' path path' accepted accepted'
    exact revisionPath_inj accepted accepted'

/-- The second and the tenth revision of a profile, a listing with a row of another one, and a revision that is
written in two ways. -/
theorem revision_keys_and_paths_two : revisionKey "p" 2 < revisionKey "p" 10 ∧
    (∃ listed, loadRevisions "w" "p" [⟨"w", revisionKey "p" 2, .revision ⟨2, 0⟩, ""⟩, ⟨"w", revisionKey "q" 2, .revision ⟨2, 0⟩, ""⟩] =
      loadAll "w" "p" listed ∧ ⟨"w", revisionKey "p" 2, .revision ⟨2, 0⟩, ""⟩ ∈ listed) ∧
    ∃ path path', revisionPath "w" "p" "+7" = .ok path ∧ revisionPath "w" "p" "007" = .ok path' ∧ path = path' := by
  have keys := revision_keys_and_paths.1 "p" "p" 2 10 (by decide) (by decide) (by decide) (by decide)
  have path : revisionPath "w" "p" "+7" = .ok "profiles/w/p/000007.yaml" := by decide
  have path' : revisionPath "w" "p" "007" = .ok "profiles/w/p/000007.yaml" := by decide
  have paths := revision_keys_and_paths.2.2 _ _ _ _ _ _ _ _ path path'
  refine ⟨keys.2.mpr (by decide), ?_, _, _, path, path', paths.mpr ⟨rfl, rfl, by decide⟩⟩
  obtain ⟨listed, loads, -, members⟩ := revision_keys_and_paths.2.1 "w" "p"
    [⟨"w", revisionKey "p" 2, .revision ⟨2, 0⟩, ""⟩, ⟨"w", revisionKey "q" 2, .revision ⟨2, 0⟩, ""⟩] (by decide) (by
      intro e member
      simp only [List.mem_cons, List.not_mem_nil, or_false] at member
      rcases member with rfl | rfl
      · exact ⟨"p", 2, by decide, by decide, rfl⟩
      · exact ⟨"q", 2, by decide, by decide, rfl⟩)
  exact ⟨listed, loads, (members _ (.head _)).mpr ⟨2, by decide, rfl⟩⟩

end Azbridge.Broker
