import Azbridge.Broker.Scripts

/-!
# Names of connections and profiles

A name is looked for and then written under the lock, and no write but the insertion gives a row
its name. So the names of a workspace stay distinct in every run, whatever stops halfway.
-/

namespace Azbridge.Broker
open Ledger Interleaving

variable {app : App}

theorem World.Initial.distinctNames {w : World} (start : w.Initial) : DistinctNames w.ledger := by
  intro ws table id id' name name' named
  cases named with
  | connection held =>
    rw [Ledger.Connection, start.value (by rintro ⟨⟩)] at held
    cases held
  | profile held =>
    rw [Ledger.Profile, start.value (by rintro ⟨⟩)] at held
    cases held

/-- Two connections of a workspace, or two profiles, whose names differ in ASCII case at most are the same. -/
theorem names_stay_distinct {w₀ : World} {p : Pool} (start : w₀.Initial)
    (run : Reaches (serial app fun _ _ => True) (Pool.fresh w₀) p) (ws id id' : String) :
    (∀ conn conn' x x', p.world.ledger.Connection ws id conn x → p.world.ledger.Connection ws id' conn' x' →
      Text.eqIgnoreAsciiCase conn.name conn'.name = true → id = id') ∧
    (∀ r r', p.world.ledger.Profile ws id r → p.world.ledger.Profile ws id' r' →
      Text.eqIgnoreAsciiCase r.profile.name r'.profile.name = true → id = id') := by
  have distinct : DistinctNames p.world.ledger :=
    ledger_kept start run start.distinctNames fun _ _ _ distinct step => distinct.step step
  constructor
  · intro conn conn' x x' held held' equal
    exact distinct ws .connections id id' _ _ (.connection held) (.connection held') equal
  · intro r r' held held' equal
    exact distinct ws .profiles id id' _ _ (.profile held) (.profile held') equal

/-- No other profile of the local broker is called `P`. -/
theorem names_stay_distinct_local : ∃ p, Reaches (serial localApp fun _ _ => True) (Pool.fresh World.empty) p ∧
    p.world.ledger.Profile localWorkspace localProfile ⟨⟨localProfile, "p", some 1⟩, 2⟩ ∧
    ∀ id r, p.world.ledger.Profile localWorkspace id r → r.profile.name = "P" → id = localProfile := by
  obtain ⟨p, next, run, -, held, -⟩ := localScript_runs
  refine ⟨p, run, held, fun id r held' named => ?_⟩
  have distinct := (names_stay_distinct World.empty_initial run localWorkspace id localProfile).2
  exact distinct r _ held' held (by rw [named]; decide)

end Azbridge.Broker
