import Azbridge.Broker.Listing

/-!
# Table addresses

The requests to a table service name an entity in the path and a partition in a filter, as quoted
literals in which a quote is written twice. Whatever a key contains, the service reads back that key.
-/

namespace Azbridge.Broker

def Table.asStr : Table → String
  | .workspaces => "Workspaces"
  | .members => "Members"
  | .userWorkspaces => "UserWorkspaces"
  | .platformAdmins => "PlatformAdmins"
  | .connections => "Connections"
  | .profiles => "Profiles"
  | .gateways => "Gateways"
  | .enrollments => "Enrollments"
  | .audit => "Audit"
  | .revisionMetadata => "RevisionMetadata"

/-- `key.replace('\'', "''")`. -/
def quoteKey (key : String) : String := String.ofList (key.toList.flatMap fun c => if c = '\'' then ['\'', '\''] else [c])

def entitySegment (table : Table) (partition row : String) : String :=
  table.asStr ++ "(PartitionKey='" ++ quoteKey partition ++ "',RowKey='" ++ quoteKey row ++ "')"

def partitionFilter (partition : String) : String := "PartitionKey eq '" ++ quoteKey partition ++ "'"

/-- What is used of the `url` crate. -/
structure UrlCrate (Url : Type) where
  /-- `path_segments_mut()`, `pop_if_empty` and `push`. -/
  push : Url → String → Option Url
  join : Url → String → Option Url
  /-- `query_pairs_mut().append_pair`. -/
  appendPair : Url → String → String → Url
  /-- The last path segment, decoded. -/
  lastSegment : Url → Option String
  /-- The query, decoded. -/
  queryPairs : Url → List (String × String)

section Requests
variable {Url : Type} (crate : UrlCrate Url)

def unavailable {α : Type} : Option α → Except BrokerError α
  | some a => .ok a
  | none => .error .unavailable

def entityUrl (endpoint : Url) (table : Table) (partition row : String) : Except BrokerError Url := do
  validateKey partition
  validateKey row
  unavailable (crate.push endpoint (entitySegment table partition row))

def appendToken (url : Url) (name : String) : Option String → Url
  | some token => crate.appendPair url name token
  | none => url

/-- The request of `list` that asks for the page of these tokens. -/
def listUrl (endpoint : Url) (table : Table) (partition : String) (tokens : Tokens) : Except BrokerError Url := do
  validateKey partition
  let base ← unavailable (crate.join endpoint (table.asStr ++ "()"))
  let base := crate.appendPair base "$filter" (partitionFilter partition)
  return appendToken crate (appendToken crate base "NextPartitionKey" tokens.nextPartition) "NextRowKey" tokens.nextRow

end Requests

/-! ### How the service reads them -/

/-- The literal up to its closing quote, and what follows. -/
def readLiteral : List Char → Option (List Char × List Char)
  | '\'' :: '\'' :: rest => (readLiteral rest).map fun (value, rest) => ('\'' :: value, rest)
  | '\'' :: rest => some ([], rest)
  | c :: rest => (readLiteral rest).map fun (value, rest) => (c :: value, rest)
  | [] => none

theorem readLiteral_shorter {cs value rest : List Char} (h : readLiteral cs = some (value, rest)) : rest.length < cs.length := by
  fun_induction readLiteral cs generalizing value rest with
  | case1 cs ih =>
    obtain ⟨⟨value', rest'⟩, read, same⟩ := Option.map_eq_some_iff.mp h
    cases same
    have shorter := ih read
    simp only [List.length_cons]
    omega
  | case2 cs _ =>
    cases h
    simp
  | case3 c cs _ _ ih =>
    obtain ⟨⟨value', rest'⟩, read, same⟩ := Option.map_eq_some_iff.mp h
    cases same
    have shorter := ih read
    simp only [List.length_cons]
    omega
  | case4 => cases h

/-- The text before the first mark, and after it. -/
def cutAt (mark : Char) (cs : List Char) : Option (List Char × List Char) :=
  match cs.dropWhile (· != mark) with
  | _ :: after => some (cs.takeWhile (· != mark), after)
  | [] => none

theorem cutAt_shorter {mark : Char} {cs before after : List Char} (h : cutAt mark cs = some (before, after)) :
    after.length < cs.length := by
  unfold cutAt at h
  split at h
  · next c rest dropped =>
    cases h
    have shorter := (List.dropWhile_suffix (· != mark) : cs.dropWhile (· != mark) <:+ cs).length_le
    rw [dropped, List.length_cons] at shorter
    omega
  · cases h

/-- `name='literal'`, separated by commas and closed by a parenthesis at the end. -/
def readPredicates (cs : List Char) : Option (List (String × String)) :=
  match _named : cutAt '=' cs with
  | some (name, '\'' :: quoted) =>
    match _read : readLiteral quoted with
    | some (value, [')']) => some [(String.ofList name, String.ofList value)]
    | some (value, ',' :: rest) => (readPredicates rest).map ((String.ofList name, String.ofList value) :: ·)
    | _ => none
  | _ => none
termination_by cs.length
decreasing_by
  have quoted := readLiteral_shorter _read
  have named := cutAt_shorter _named
  simp only [List.length_cons] at quoted named
  omega

/-- The table and the keys that a path segment names. -/
def readSegment (segment : String) : Option (String × List (String × String)) :=
  match cutAt '(' segment.toList with
  | some (table, rest) => (readPredicates rest).map (String.ofList table, ·)
  | none => none

/-- The property and the value that a filter compares. -/
def readFilter (filter : String) : Option (String × String) :=
  match cutAt ' ' filter.toList with
  | some (name, rest) =>
    match (Text.stripPrefixList "eq '".toList rest).bind readLiteral with
    | some (value, []) => some (String.ofList name, String.ofList value)
    | _ => none
  | none => none

def tokenPairs (tokens : Tokens) : List (String × String) :=
  (tokens.nextPartition.map ("NextPartitionKey", ·)).toList ++ (tokens.nextRow.map ("NextRowKey", ·)).toList

/-! ### Quoting -/

theorem readLiteral_quoteKey (key : String) {rest : List Char} (closed : rest.head? ≠ some '\'') :
    readLiteral ((quoteKey key).toList ++ '\'' :: rest) = some (key.toList, rest) := by
  unfold quoteKey
  rw [String.toList_ofList]
  induction key.toList with
  | nil =>
    cases rest with
    | nil => rfl
    | cons c rest =>
      have other : c ≠ '\'' := fun same => closed (by rw [same]; rfl)
      simp [readLiteral, other]
  | cons c cs ih =>
    by_cases quote : c = '\''
    · subst quote
      simp [readLiteral, ih]
    · simp [readLiteral, quote, ih]

theorem cutAt_mark {before : List Char} {mark : Char} (plain : mark ∉ before) (after : List Char) :
    cutAt mark (before ++ mark :: after) = some (before, after) := by
  have all : ∀ c ∈ before, (c != mark) = true := fun c member => bne_iff_ne.mpr (ne_of_mem_of_not_mem member plain)
  unfold cutAt
  rw [List.takeWhile_append_of_pos all, List.dropWhile_append_of_pos all]
  simp

theorem readPredicates_last {name : List Char} (plain : '=' ∉ name) (key : String) :
    readPredicates (name ++ '=' :: '\'' :: ((quoteKey key).toList ++ ['\'', ')'])) = some [(String.ofList name, key)] := by
  have literal := @readLiteral_quoteKey key [')'] (by simp)
  have named := cutAt_mark plain ('\'' :: ((quoteKey key).toList ++ ['\'', ')']))
  rw [readPredicates]
  split
  · next name' quoted same =>
    cases named.symm.trans same
    split
    · next value read =>
      cases literal.symm.trans read
      rw [String.ofList_toList]
    · next value rest read => cases literal.symm.trans read
    · next other _ => exact absurd literal (other _)
  · next other => exact absurd named (other _ _)

theorem readPredicates_next {name : List Char} (plain : '=' ∉ name) (key : String) (rest : List Char) :
    readPredicates (name ++ '=' :: '\'' :: ((quoteKey key).toList ++ '\'' :: ',' :: rest)) =
      (readPredicates rest).map ((String.ofList name, key) :: ·) := by
  have literal := @readLiteral_quoteKey key (',' :: rest) (by simp)
  have named := cutAt_mark plain ('\'' :: ((quoteKey key).toList ++ '\'' :: ',' :: rest))
  rw [readPredicates]
  split
  · next name' quoted same =>
    cases named.symm.trans same
    split
    · next value read => cases literal.symm.trans read
    · next value rest' read =>
      cases literal.symm.trans read
      rw [String.ofList_toList]
    · next other => exact absurd literal (other _ _)
  · next other => exact absurd named (other _ _)

theorem asStr_plain (table : Table) : '(' ∉ table.asStr.toList := by
  cases table <;> decide

theorem asStr_injective {table table' : Table} (same : table.asStr = table'.asStr) : table = table' := by
  revert same
  cases table <;> cases table' <;> decide

theorem entitySegment_toList (table : Table) (partition row : String) :
    (entitySegment table partition row).toList = table.asStr.toList ++ '(' :: ("PartitionKey".toList ++ '=' :: '\'' ::
      ((quoteKey partition).toList ++ '\'' :: ',' :: ("RowKey".toList ++ '=' :: '\'' :: ((quoteKey row).toList ++ ['\'', ')'])))) := by
  simp [entitySegment]

theorem readSegment_entitySegment (table : Table) (partition row : String) :
    readSegment (entitySegment table partition row) = some (table.asStr, [("PartitionKey", partition), ("RowKey", row)]) := by
  unfold readSegment
  rw [entitySegment_toList, cutAt_mark (asStr_plain table)]
  simp only [readPredicates_next (show '=' ∉ "PartitionKey".toList by decide),
    readPredicates_last (show '=' ∉ "RowKey".toList by decide), Option.map_some, String.ofList_toList]

theorem entitySegment_injective {table table' : Table} {partition partition' row row' : String}
    (same : entitySegment table partition row = entitySegment table' partition' row') :
    table = table' ∧ partition = partition' ∧ row = row' := by
  have read := readSegment_entitySegment table partition row
  rw [same, readSegment_entitySegment] at read
  simp only [Option.some.injEq, Prod.mk.injEq, List.cons.injEq, true_and, and_true] at read
  obtain ⟨tables, partitions, rows⟩ := read
  exact ⟨(asStr_injective tables).symm, partitions.symm, rows.symm⟩

theorem readFilter_partitionFilter (partition : String) :
    readFilter (partitionFilter partition) = some ("PartitionKey", partition) := by
  have lead : "PartitionKey eq '".toList = "PartitionKey".toList ++ ' ' :: "eq '".toList := by decide
  have close : "'".toList = '\'' :: [] := by decide
  have pieces : (partitionFilter partition).toList =
      "PartitionKey".toList ++ ' ' :: ("eq '".toList ++ ((quoteKey partition).toList ++ '\'' :: [])) := by
    unfold partitionFilter
    rw [@String.toList_append ("PartitionKey eq '" ++ quoteKey partition) "'", @String.toList_append "PartitionKey eq '" _,
      lead, close, List.append_assoc, List.append_assoc, List.cons_append]
  have literal := @readLiteral_quoteKey partition [] (by simp)
  have read : (Text.stripPrefixList "eq '".toList ("eq '".toList ++ ((quoteKey partition).toList ++ '\'' :: []))).bind readLiteral =
      some (partition.toList, []) := by
    rw [Text.stripPrefixList_append, Option.bind_some, literal]
  have mark : ' ' ∉ "PartitionKey".toList := by decide
  unfold readFilter
  rw [pieces, cutAt_mark mark]
  simp only [read, String.ofList_toList]

/-! ### Requests -/

/-- What is documented of the crate: a segment is pushed as it is unless it steps up or has control
characters, and a pair is appended as it is. -/
structure UrlCrate.Faithful {Url : Type} (crate : UrlCrate Url) : Prop where
  pushed : ∀ url segment url', (∀ c ∈ segment.toList, Text.isControl c = false) → segment ≠ "." → segment ≠ ".." →
    crate.push url segment = some url' → crate.lastSegment url' = some segment
  joined : ∀ url table url', crate.join url (Table.asStr table ++ "()") = some url' →
    crate.lastSegment url' = some (table.asStr ++ "()") ∧ crate.queryPairs url' = []
  appended : ∀ url name value, crate.queryPairs (crate.appendPair url name value) = crate.queryPairs url ++ [(name, value)] ∧
    crate.lastSegment (crate.appendPair url name value) = crate.lastSegment url

/-- An endpoint that takes segments and collections, as one of the account's service does. -/
structure UrlCrate.Hierarchical {Url : Type} (crate : UrlCrate Url) (endpoint : Url) : Prop where
  pushes : ∀ segment, ∃ url, crate.push endpoint segment = some url
  joins : ∀ table, ∃ url, crate.join endpoint (Table.asStr table ++ "()") = some url

theorem validateKey_plain {key : String} (h : validateKey key = .ok ()) : ∀ c ∈ key.toList, Text.isControl c = false := by
  unfold validateKey at h
  split at h
  · cases h
  · next well =>
    intro c member
    by_contra control
    have found : key.toList.any (fun c => Text.isControl c || ['/', '\\', '#', '?'].contains c) = true :=
      List.any_eq_true.mpr ⟨c, member, by simp [control]⟩
    exact well (.inr (.inr found))

theorem quoteKey_plain {key : String} (plain : ∀ c ∈ key.toList, Text.isControl c = false) :
    ∀ c ∈ (quoteKey key).toList, Text.isControl c = false := by
  unfold quoteKey
  intro c member
  rw [String.toList_ofList, List.mem_flatMap] at member
  obtain ⟨d, inside, member⟩ := member
  split at member
  · have quote : c = '\'' := by simpa using member
    subst quote
    decide
  · rw [List.mem_singleton.mp member]
    exact plain d inside

section Requests
variable {Url : Type} {crate : UrlCrate Url} {endpoint url : Url} {table : Table} {partition row : String}

theorem entityUrl_ok : entityUrl crate endpoint table partition row = .ok url ↔
    validateKey partition = .ok () ∧ validateKey row = .ok () ∧
      crate.push endpoint (entitySegment table partition row) = some url := by
  unfold entityUrl
  cases validateKey partition with
  | error e => simp [bind, Except.bind]
  | ok =>
    cases validateKey row with
    | error e => simp [bind, Except.bind]
    | ok =>
      cases crate.push endpoint (entitySegment table partition row) with
      | none => simp [bind, Except.bind, unavailable]
      | some url' => simp [bind, Except.bind, unavailable]

theorem plain_of_all {cs : List Char} (all : cs.all (fun c => !Text.isControl c) = true) :
    ∀ c ∈ cs, Text.isControl c = false := by
  simpa using all

theorem entitySegment_plain (first : validateKey partition = .ok ()) (second : validateKey row = .ok ()) :
    ∀ c ∈ (entitySegment table partition row).toList, Text.isControl c = false := by
  have named := plain_of_all (show table.asStr.toList.all (fun c => !Text.isControl c) = true by cases table <;> decide)
  have left := quoteKey_plain (validateKey_plain first)
  have right := quoteKey_plain (validateKey_plain second)
  have partitionKey := plain_of_all (show "PartitionKey".toList.all (fun c => !Text.isControl c) = true by decide)
  have rowKey := plain_of_all (show "RowKey".toList.all (fun c => !Text.isControl c) = true by decide)
  have marks := plain_of_all (show ['(', '=', '\'', ',', ')'].all (fun c => !Text.isControl c) = true by decide)
  rw [entitySegment_toList]
  simp only [List.forall_mem_append, List.forall_mem_cons] at marks ⊢
  obtain ⟨bracket, equals, quote, comma, close, none⟩ := marks
  exact ⟨named, bracket, partitionKey, equals, quote, left, quote, comma, rowKey, equals, quote, right, quote, close, none⟩

theorem entitySegment_ne {dots : String} (none : '(' ∉ dots.toList) : entitySegment table partition row ≠ dots := by
  rintro rfl
  apply none
  rw [entitySegment_toList]
  exact List.mem_append_right _ (.head _)

theorem entityUrl_read (faithful : crate.Faithful) (h : entityUrl crate endpoint table partition row = .ok url) :
    crate.lastSegment url = some (entitySegment table partition row) := by
  obtain ⟨first, second, pushed⟩ := entityUrl_ok.mp h
  exact faithful.pushed endpoint _ url (entitySegment_plain first second) (entitySegment_ne (by decide))
    (entitySegment_ne (by decide)) pushed

theorem appendToken_read (faithful : crate.Faithful) (url : Url) (name : String) (token : Option String) :
    crate.queryPairs (appendToken crate url name token) = crate.queryPairs url ++ (token.map (name, ·)).toList ∧
      crate.lastSegment (appendToken crate url name token) = crate.lastSegment url := by
  cases token with
  | none => simp [appendToken]
  | some token => exact faithful.appended url name token

theorem listUrl_read (faithful : crate.Faithful) {tokens : Tokens} (h : listUrl crate endpoint table partition tokens = .ok url) :
    crate.lastSegment url = some (table.asStr ++ "()") ∧
      crate.queryPairs url = ("$filter", partitionFilter partition) :: tokenPairs tokens := by
  unfold listUrl at h
  cases valid : validateKey partition with
  | error e => simp [valid, bind, Except.bind] at h
  | ok =>
    cases joins : crate.join endpoint (table.asStr ++ "()") with
    | none => simp [valid, joins, bind, Except.bind, unavailable] at h
    | some base =>
      simp only [valid, joins, bind, Except.bind, unavailable, pure, Except.pure, Except.ok.injEq] at h
      subst h
      obtain ⟨segment, empty⟩ := faithful.joined endpoint table base joins
      obtain ⟨filtered, kept⟩ := faithful.appended base "$filter" (partitionFilter partition)
      obtain ⟨pairs, kept₁⟩ := appendToken_read faithful (crate.appendPair base "$filter" (partitionFilter partition))
        "NextPartitionKey" tokens.nextPartition
      obtain ⟨pairs₂, kept₂⟩ := appendToken_read faithful (appendToken crate
        (crate.appendPair base "$filter" (partitionFilter partition)) "NextPartitionKey" tokens.nextPartition)
        "NextRowKey" tokens.nextRow
      refine ⟨by rw [kept₂, kept₁, kept, segment], ?_⟩
      rw [pairs₂, pairs, filtered, empty]
      simp [tokenPairs]

theorem listUrl_of_valid (hierarchical : crate.Hierarchical endpoint) (valid : validateKey partition = .ok ()) (tokens : Tokens) :
    ∃ url, listUrl crate endpoint table partition tokens = .ok url := by
  obtain ⟨base, joined⟩ := hierarchical.joins table
  unfold listUrl
  rw [valid, joined]
  exact ⟨_, rfl⟩

/-- Valid keys make requests. Table, partition and row can be read from the segment of an entity, and the partition
from the filter of a listing, whatever the keys contain; so no two entities share an address. -/
theorem requests_are_unambiguous (faithful : crate.Faithful) :
    (∀ endpoint, crate.Hierarchical endpoint → ∀ table partition, validateKey partition = .ok () →
      (∀ row, validateKey row = .ok () → ∃ url, entityUrl crate endpoint table partition row = .ok url) ∧
        ∀ tokens, ∃ url, listUrl crate endpoint table partition tokens = .ok url) ∧
    (∀ endpoint table partition row url, entityUrl crate endpoint table partition row = .ok url →
      crate.lastSegment url = some (entitySegment table partition row) ∧
        readSegment (entitySegment table partition row) = some (table.asStr, [("PartitionKey", partition), ("RowKey", row)])) ∧
    (∀ endpoint endpoint' table table' partition partition' row row' url,
      entityUrl crate endpoint table partition row = .ok url → entityUrl crate endpoint' table' partition' row' = .ok url →
        table = table' ∧ partition = partition' ∧ row = row') ∧
    (∀ endpoint table partition tokens url, listUrl crate endpoint table partition tokens = .ok url →
      crate.lastSegment url = some (table.asStr ++ "()") ∧
        crate.queryPairs url = ("$filter", partitionFilter partition) :: tokenPairs tokens ∧
        readFilter (partitionFilter partition) = some ("PartitionKey", partition)) := by
  refine ⟨?_, ?_, ?_, ?_⟩
  · intro endpoint hierarchical table partition first
    refine ⟨fun row second => ?_, listUrl_of_valid hierarchical first⟩
    obtain ⟨url, pushed⟩ := hierarchical.pushes (entitySegment table partition row)
    exact ⟨url, entityUrl_ok.mpr ⟨first, second, pushed⟩⟩
  · intro endpoint table partition row url built
    exact ⟨entityUrl_read faithful built, readSegment_entitySegment table partition row⟩
  · intro endpoint endpoint' table table' partition partition' row row' url built built'
    have same := (entityUrl_read faithful built).symm.trans (entityUrl_read faithful built')
    exact entitySegment_injective (Option.some.inj same)
  · intro endpoint table partition tokens url built
    obtain ⟨segment, pairs⟩ := listUrl_read faithful built
    exact ⟨segment, pairs, readFilter_partitionFilter partition⟩

end Requests

/-- A path and a query, both decoded. -/
def decodedCrate : UrlCrate (List String × List (String × String)) where
  push url segment := some ((if url.1.getLast? = some "" then url.1.dropLast else url.1) ++ [segment], url.2)
  join url path := some (url.1.dropLast ++ [path], [])
  appendPair url name value := (url.1, url.2 ++ [(name, value)])
  lastSegment url := url.1.getLast?
  queryPairs url := url.2

/-- A key that looks like the end of its literal. -/
theorem requests_are_unambiguous_quoted :
    (∃ url segment, entityUrl decodedCrate ([""], []) .members "a',RowKey='b" "1" = .ok url ∧
      decodedCrate.lastSegment url = some segment ∧
      readSegment segment = some ("Members", [("PartitionKey", "a',RowKey='b"), ("RowKey", "1")])) ∧
    ∃ url filter, listUrl decodedCrate ([""], []) .members "a',RowKey='b" ⟨some "p&q", none⟩ = .ok url ∧
      decodedCrate.queryPairs url = [("$filter", filter), ("NextPartitionKey", "p&q")] ∧ readFilter filter = some ("PartitionKey", "a',RowKey='b") := by
  have faithful : decodedCrate.Faithful := by
    refine ⟨?_, ?_, ?_⟩
    · rintro url segment url' - - - pushed
      cases pushed
      simp [decodedCrate]
    · rintro url table url' joined
      cases joined
      simp [decodedCrate]
    · intro url name value
      exact ⟨rfl, rfl⟩
  obtain ⟨made, entity, -, listing⟩ := requests_are_unambiguous faithful
  obtain ⟨urls, lists⟩ := made ([""], []) ⟨fun _ => ⟨_, rfl⟩, fun _ => ⟨_, rfl⟩⟩ .members "a',RowKey='b" (by decide)
  obtain ⟨url, built⟩ := urls "1" (by decide)
  obtain ⟨url', listed⟩ := lists ⟨some "p&q", none⟩
  obtain ⟨segment, read⟩ := entity _ _ _ _ _ built
  obtain ⟨-, pairs, filtered⟩ := listing _ _ _ _ _ listed
  exact ⟨⟨url, _, built, segment, read⟩, url', _, listed, pairs, filtered⟩

end Azbridge.Broker
