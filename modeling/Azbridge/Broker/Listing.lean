import Azbridge.Lib.Paging
import Azbridge.Arm.Manager
import Azbridge.Broker.Store

/-!
# Listing a partition of a table

The server answers a query in pages. Each reply may name the next page by two headers, which go into
the next request; the broker takes every page or none.
-/

namespace Azbridge.Broker
open Azbridge.Arm (Json headerText)

structure TableResponse where
  status : Nat
  header : String → Option (List UInt8)
  /-- `none` if the body is not JSON. -/
  body : Option Json

/-- The continuation tokens of a request, or of a reply. -/
structure Tokens where
  nextPartition : Option String
  nextRow : Option String
  deriving DecidableEq, Repr

namespace Tokens
def first : Tokens := ⟨none, none⟩
end Tokens

section Entities
variable {V : Type} (fromStr : String → Option V)

def stringField (value : Json) (name : String) : Except BrokerError String :=
  match (value.field name).asStr with
  | some text => .ok text
  | none => .error .unavailable

def parseEntity (value : Json) (etag : Option String) : Except BrokerError (Entity V) := do
  let partitionKey ← stringField value "PartitionKey"
  let rowKey ← stringField value "RowKey"
  let text ← stringField value "Data"
  let some data := fromStr text | throw .unavailable
  let etag := etag.getD (((value.field "odata.etag").asStr).getD "")
  if validateKey partitionKey ≠ .ok () ∨ validateKey rowKey ≠ .ok () ∨ validateEtag etag ≠ .ok () then
    throw .unavailable
  return ⟨partitionKey, rowKey, data, etag⟩

def pageEntities (partition : String) : List Json → Except BrokerError (List (Entity V))
  | [] => .ok []
  | value :: rest => do
    let entity ← parseEntity fromStr value none
    if entity.partitionKey ≠ partition then throw .unavailable
    return entity :: (← pageEntities partition rest)

def continuation (response : TableResponse) (name : String) : Except BrokerError (Option String) :=
  match response.header name with
  | none => .ok none
  | some value => (headerText value).map some

/-- One turn: the entities of the page, and the tokens of the next if there are any. -/
def readPage (partition : String) (response : TableResponse) :
    Except BrokerError (List (Entity V) × Option Tokens) := do
  if response.status ≠ 200 then throw .unavailable
  let nextPartition ← continuation response "x-ms-continuation-NextPartitionKey"
  let nextRow ← continuation response "x-ms-continuation-NextRowKey"
  let some body := response.body | throw .unavailable
  let .array page := body.field "value" | throw .unavailable
  let entities ← pageEntities fromStr partition page
  if nextPartition = none ∧ nextRow = none then return (entities, none)
  return (entities, some ⟨nextPartition, nextRow⟩)

/-- The query of one partition, by a server that sees the tokens of a request; `none` where it does not
end within so many requests. -/
def listPages (server : Tokens → TableResponse) (partition : String) (requests : Nat) :
    Option (Except BrokerError (List (Entity V))) :=
  match validateKey partition with
  | .error error => some (.error error)
  | .ok _ => Paging.follow (fun tokens => readPage fromStr partition (server tokens)) .unavailable requests .first [] []

def requested (server : Tokens → TableResponse) (partition : String) (turns : Nat) : List Tokens :=
  match validateKey partition with
  | .error _ => []
  | .ok _ =>
    .first :: (Paging.fetched (fun tokens => readPage fromStr partition (server tokens)) turns .first []).reverse

def Lists (server : Tokens → TableResponse) (partition : String) (result : Except BrokerError (List (Entity V))) : Prop :=
  ∃ requests, listPages fromStr server partition requests = some result

structure ValidEntity (value : Json) (entity : Entity V) : Prop where
  partitionKey : value.field "PartitionKey" = .string entity.partitionKey
  rowKey : value.field "RowKey" = .string entity.rowKey
  data : ∃ text, value.field "Data" = .string text ∧ fromStr text = some entity.data
  etag : value.field "odata.etag" = .string entity.etag
  validPartition : validateKey entity.partitionKey = .ok ()
  validRow : validateKey entity.rowKey = .ok ()
  validEtag : validateEtag entity.etag = .ok ()

def Holds (header : Option (List UInt8)) (token : Option String) : Prop :=
  header = none ∧ token = none ∨ ∃ value text, header = some value ∧ headerText value = .ok text ∧ token = some text

structure Page (partition : String) (response : TableResponse) (entities : List (Entity V)) (next : Tokens) : Prop where
  status : response.status = 200
  nextPartition : Holds (response.header "x-ms-continuation-NextPartitionKey") next.nextPartition
  nextRow : Holds (response.header "x-ms-continuation-NextRowKey") next.nextRow
  body : ∃ body values, response.body = some body ∧ body.field "value" = .array values ∧
    List.Forall₂ (ValidEntity fromStr) values entities
  partition : ∀ entity ∈ entities, entity.partitionKey = partition

/-- From the request with these tokens the pages are followed to the last one. -/
inductive Follows (server : Tokens → TableResponse) (partition : String) : Tokens → List Tokens → List (Entity V) → Prop
  | last {tokens : Tokens} {entities : List (Entity V)} :
    Page fromStr partition (server tokens) entities .first → Follows server partition tokens [] entities
  | more {tokens next : Tokens} {entities later : List (Entity V)} {names : List Tokens} :
    Page fromStr partition (server tokens) entities next → next ≠ .first →
    Follows server partition next names later → Follows server partition tokens (next :: names) (entities ++ later)

variable {fromStr}

theorem stringField_ok {value : Json} {name text : String} :
    stringField value name = .ok text ↔ value.field name = .string text := by
  unfold stringField
  rw [← Json.asStr_eq_some]
  cases (value.field name).asStr <;> simp

theorem bind_eq_ok {α β : Type} {first : Except BrokerError α} {next : α → Except BrokerError β} {b : β} :
    (first >>= next) = .ok b ↔ ∃ a, first = .ok a ∧ next a = .ok b := by
  cases first <;> simp [bind, Except.bind]

theorem parseEntity_ok {value : Json} {entity : Entity V} :
    parseEntity fromStr value none = .ok entity ↔ ValidEntity fromStr value entity := by
  unfold parseEntity
  simp only [bind_eq_ok, stringField_ok]
  constructor
  · rintro ⟨partitionKey, partition, rowKey, row, text, held, done⟩
    cases parsed : fromStr text with
    | none =>
      rw [parsed] at done
      cases done
    | some data =>
      rw [parsed] at done
      simp only [Option.getD_none] at done
      split at done
      · cases done
      · next valid =>
        simp only [not_or, not_not] at valid
        cases done
        obtain ⟨validPartition, validRow, tag⟩ := valid
        refine ⟨partition, row, ⟨text, held, parsed⟩, ?_, validPartition, validRow, tag⟩
        cases named : (value.field "odata.etag").asStr with
        | none =>
          rw [named] at tag
          exact absurd tag (by decide +kernel)
        | some etag => exact Json.asStr_eq_some.mp named
  · intro valid
    obtain ⟨text, held, parsed⟩ := valid.data
    refine ⟨_, valid.partitionKey, _, valid.rowKey, text, held, ?_⟩
    rw [parsed, valid.etag]
    have fine : ¬ (validateKey entity.partitionKey ≠ .ok () ∨ validateKey entity.rowKey ≠ .ok () ∨
        validateEtag entity.etag ≠ .ok ()) := by
      simp [valid.validPartition, valid.validRow, valid.validEtag]
    exact (if_neg fine).trans rfl

theorem pageEntities_ok {partition : String} {values : List Json} {entities : List (Entity V)} :
    pageEntities fromStr partition values = .ok entities ↔
      List.Forall₂ (ValidEntity fromStr) values entities ∧ ∀ entity ∈ entities, entity.partitionKey = partition := by
  induction values generalizing entities with
  | nil =>
    unfold pageEntities
    constructor
    · intro done
      cases done
      exact ⟨.nil, nofun⟩
    · rintro ⟨each, -⟩
      cases each
      rfl
  | cons value rest ih =>
    unfold pageEntities
    rw [bind_eq_ok]
    constructor
    · rintro ⟨entity, parsed, done⟩
      split at done
      · cases done
      · next same =>
        obtain ⟨later, read, done⟩ := bind_eq_ok.mp done
        cases done
        obtain ⟨each, all⟩ := ih.mp read
        refine ⟨.cons (parseEntity_ok.mp parsed) each, fun e member => ?_⟩
        rcases List.mem_cons.mp member with rfl | member
        · exact Decidable.not_not.mp same
        · exact all e member
    · rintro ⟨each, all⟩
      cases each with
      | @cons _ entity _ later valid each =>
        refine ⟨entity, parseEntity_ok.mpr valid, ?_⟩
        have same := all entity (.head _)
        rw [if_neg (by simp [same])]
        exact bind_eq_ok.mpr ⟨later, ih.mpr ⟨each, fun e member => all e (.tail _ member)⟩, rfl⟩

theorem continuation_ok {response : TableResponse} {name : String} {token : Option String} :
    continuation response name = .ok token ↔ Holds (response.header name) token := by
  unfold continuation Holds
  cases response.header name with
  | none => simp [eq_comm]
  | some value => cases read : headerText value <;> simp [read, Except.map, eq_comm]

theorem readPage_ok {partition : String} {response : TableResponse} {entities : List (Entity V)} {next : Option Tokens} :
    readPage fromStr partition response = .ok (entities, next) ↔
      ∃ tokens, Page fromStr partition response entities tokens ∧ next = if tokens = .first then none else some tokens := by
  unfold readPage
  constructor
  · intro done
    by_cases status : response.status = 200
    · rw [if_neg (not_not.mpr status)] at done
      obtain ⟨nextPartition, first, done⟩ := bind_eq_ok.mp done
      obtain ⟨nextRow, second, done⟩ := bind_eq_ok.mp done
      cases held : response.body with
      | none =>
        rw [held] at done
        cases done
      | some body =>
        rw [held] at done
        dsimp only at done
        split at done
        · next values array =>
          obtain ⟨read, page, done⟩ := bind_eq_ok.mp done
          obtain ⟨each, same⟩ := pageEntities_ok.mp page
          have shown : Page fromStr partition response read ⟨nextPartition, nextRow⟩ :=
            ⟨status, continuation_ok.mp first, continuation_ok.mp second, ⟨body, values, held, array, each⟩, same⟩
          split at done
          · next last =>
            cases done
            obtain ⟨rfl, rfl⟩ := last
            exact ⟨_, shown, rfl⟩
          · next more =>
            cases done
            have other : (⟨nextPartition, nextRow⟩ : Tokens) ≠ .first := fun same => by
              cases same
              exact more ⟨rfl, rfl⟩
            exact ⟨_, shown, (if_neg other).symm⟩
        · cases done
    · rw [if_pos status] at done
      cases done
  · rintro ⟨tokens, page, rfl⟩
    obtain ⟨body, values, held, array, each⟩ := page.body
    have status : ¬ response.status ≠ 200 := not_not.mpr page.status
    rw [if_neg status]
    refine bind_eq_ok.mpr ⟨_, continuation_ok.mpr page.nextPartition, bind_eq_ok.mpr ⟨_, continuation_ok.mpr page.nextRow, ?_⟩⟩
    rw [held]
    dsimp only
    rw [array]
    refine bind_eq_ok.mpr ⟨_, pageEntities_ok.mpr ⟨each, page.partition⟩, ?_⟩
    obtain ⟨nextPartition, nextRow⟩ := tokens
    by_cases last : nextPartition = none ∧ nextRow = none
    · obtain ⟨rfl, rfl⟩ := last
      rfl
    · have other : (⟨nextPartition, nextRow⟩ : Tokens) ≠ .first := fun same => by
        cases same
        exact last ⟨rfl, rfl⟩
      rw [if_neg last, if_neg other]
      rfl

theorem follows_iff {server : Tokens → TableResponse} {partition : String} {tokens : Tokens} {names : List Tokens}
    {entities : List (Entity V)} :
    Follows fromStr server partition tokens names entities ↔
      Paging.Chain (fun tokens => readPage fromStr partition (server tokens)) tokens names entities := by
  constructor
  · intro follows
    induction follows with
    | last page => exact .last (readPage_ok.mpr ⟨_, page, rfl⟩)
    | more page other _ ih => exact .more (readPage_ok.mpr ⟨_, page, (if_neg other).symm⟩) ih
  · intro chain
    induction chain with
    | last read =>
      obtain ⟨next, page, last⟩ := readPage_ok.mp read
      split at last
      · next same => exact .last (same ▸ page)
      · cases last
    | more read _ ih =>
      obtain ⟨next, page, more⟩ := readPage_ok.mp read
      split at more
      · cases more
      · next other =>
        cases more
        exact .more page other ih

def named (server : Tokens → TableResponse) : Set Tokens :=
  {next | ∃ tokens, Holds ((server tokens).header "x-ms-continuation-NextPartitionKey") next.nextPartition ∧
    Holds ((server tokens).header "x-ms-continuation-NextRowKey") next.nextRow}

variable (fromStr) in
/-- What listing a partition promises of a server, whatever it answers. -/
structure ListsAll (server : Tokens → TableResponse) (partition : String) : Prop where
  complete : ∀ entities : List (Entity V), Lists fromStr server partition (.ok entities) ↔
    validateKey partition = .ok () ∧ ∃ names, Follows fromStr server partition .first names entities ∧ names.Nodup
  once : ∀ turns, (requested fromStr server partition turns).Nodup
  ends : (named server).Finite → ∃ result, Lists fromStr server partition result

theorem lists_all (fromStr : String → Option V) (server : Tokens → TableResponse) (partition : String) :
    ListsAll fromStr server partition := by
  refine ⟨fun entities => ?_, fun turns => ?_, fun finite => ?_⟩
  · unfold Lists listPages
    cases valid : validateKey partition with
    | error error => simp
    | ok _ =>
      simp only [follows_iff, true_and]
      exact Paging.follow_ok_iff
  · unfold requested
    cases valid : validateKey partition with
    | error error => exact .nil
    | ok _ =>
      refine List.nodup_cons.mpr ⟨fun member => ?_, List.nodup_reverse.mpr (Paging.nodup_fetched turns .nil)⟩
      rcases Paging.named_of_fetched (List.mem_reverse.mp member) with impossible | ⟨tokens, page, read⟩
      · cases impossible
      · obtain ⟨next, _, more⟩ := readPage_ok.mp read
        split at more
        · cases more
        · next other => exact other (Option.some.inj more).symm
  · unfold Lists listPages
    cases valid : validateKey partition with
    | error error => exact ⟨_, 0, rfl⟩
    | ok _ =>
      have among : ∀ tokens page next, readPage fromStr partition (server tokens) = .ok (page, some next) →
          next ∈ finite.toFinset := by
        intro tokens page next read
        obtain ⟨found, shown, more⟩ := readPage_ok.mp read
        split at more
        · cases more
        · cases more
          exact finite.mem_toFinset.mpr ⟨tokens, shown.nextPartition, shown.nextRow⟩
      obtain ⟨result, done⟩ := Paging.follow_ends among (fun _ old => absurd old List.not_mem_nil) .nil
        (Nat.lt_succ_self finite.toFinset.card)
      exact ⟨result, _, done⟩

end Entities

/-- A server that answers every request with an empty page. -/
def emptyServer : Tokens → TableResponse := fun _ => ⟨200, fun _ => none, some (.object [("value", .array [])])⟩

/-- A partition key that is refused is not asked for, whatever the server would answer. -/
theorem refused_partition_not_listed :
    ¬ ∀ (server : Tokens → TableResponse) (partition : String) (entities : List (Entity String)),
      Lists some server partition (.ok entities) ↔
        ∃ names, Follows some server partition .first names entities ∧ names.Nodup := by
  intro complete
  have page : Page some "" (emptyServer .first) ([] : List (Entity String)) .first :=
    ⟨rfl, .inl ⟨rfl, rfl⟩, .inl ⟨rfl, rfl⟩, ⟨_, [], rfl, rfl, .nil⟩, nofun⟩
  obtain ⟨requests, done⟩ := (complete emptyServer "" []).mpr ⟨[], .last page, .nil⟩
  have refused : validateKey "" = .error .badRequest := by decide +kernel
  unfold listPages at done
  rw [refused] at done
  cases done

end Azbridge.Broker
