import Azbridge.Broker.Reading
import Azbridge.Broker.Operations

/-!
# Replicas

Any number of brokers over the same stores: the mutation lock of one process does not hold back another,
so nothing excludes any operation. What an operation has read it can only write back under the ETag of its read.
-/

namespace Azbridge.Broker
open Interleaving

def replicas (app : App) (tick : Nat → Nat → Prop) (admits : Op → Prop) : System Op Request Reply BrokerError Outcome World where
  program := Op.program app
  answers _ := Responds tick
  admits o _ := admits o
  overlap _ _ := True

section Rows
variable {tick : Nat → Nat → Prop} {w w' : World} {r : Request} {reply : Except BrokerError (Reply r)} {k : Key}

/-- A row that a request does not name stays as it is. -/
theorem responds_other (answered : Responds tick w r reply w') (other : r.row? ≠ some k) : w'.store.lookup k = w.store.lookup k := by
  have written : ∀ {s t p row e}, r.row? = some ⟨t, p, row⟩ → w.store.Stored s ⟨t, p, row⟩ e → s.lookup k = w.store.lookup k := by
    intro s t p row e named stored
    exact stored.others k fun same => other (named.trans (congrArg some same.symm))
  cases r with
  | get => rw [(responds_get answered).1]
  | list => rw [(responds_list answered).1]
  | getRevision => rw [(responds_getRevision answered).1]
  | insert =>
    rcases responds_insert answered with ⟨e, -, rfl⟩ | ⟨e, s, -, -, stored, -, rfl⟩
    · rfl
    · exact written rfl stored
  | replace =>
    rcases responds_replace answered with ⟨e, -, rfl⟩ | ⟨e, s, old, -, -, -, stored, -, rfl⟩
    · rfl
    · exact written rfl stored
  | delete =>
    rcases responds_delete answered with ⟨e, -, rfl⟩ | ⟨old, -, -, -, rfl⟩
    · rfl
    · exact MemoryMetadata.lookup_erase_other fun same => other (congrArg some same.symm)
  | putRevision =>
    rcases responds_putRevision answered with ⟨e, -, rfl⟩ | ⟨path, -, -, -, rfl⟩
    · rfl
    · rfl
  | now =>
    rcases responds_now answered with ⟨e, -, rfl⟩ | ⟨time, -, -, -, rfl⟩
    · rfl
    · rfl
  | newUuid =>
    obtain ⟨u, -, -, rfl⟩ := responds_newUuid answered
    rfl
  | random =>
    obtain ⟨s, -, -, -, rfl⟩ := responds_random answered
    rfl
  | _ => rw [responds_external rfl answered]

end Rows

def Request.Spares (table : Table) (r : Request) : Prop := ∀ k, r.row? = some k → k.table ≠ table

theorem Request.Reads.spares {r : Request} {table : Table} (reads : r.Reads) : r.Spares table := by
  intro k named
  cases r with
  | insert => cases reads.1
  | replace => cases reads.1
  | delete => cases reads.1
  | _ => cases named

theorem Reading.spares {α : Type} {p : Handler α} {table : Table} (reading : Reading p) : p.Uses (Request.Spares table) :=
  reading.mono fun _ reads => reads.spares

theorem recordAudit_spares {table : Table} (other : table ≠ .audit) {ws actor action target : String} :
    (recordAudit ws actor action target).Uses (Request.Spares table) := by
  have drawn : Request.Spares table .newUuid := fun k named => by cases named
  have entered : ∀ entry : AuditEntry, Request.Spares table (.insert .audit ws entry.id (encode entry)) := by
    intro entry k named
    obtain rfl := Option.some.inj named
    exact other.symm
  apply (Program.uses_request drawn).bind
  intro id
  apply (Reading.spares Reading.now).bind
  intro time
  apply (Program.uses_request (entered _)).bind
  intro _
  exact Program.uses_pure _

end Azbridge.Broker
