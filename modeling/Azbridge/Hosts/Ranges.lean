import Azbridge.Hosts.RoundTrip

/-!
# The range of the aliases

An address applied before is kept if it begins like an alias. Any text can stand in a hosts file, so
what is allocated is in range exactly if what the names are to keep is.
-/

namespace Azbridge.Hosts
open Text

/-- `127.77.x.y` of a slot from 1 to 65534. -/
def IsAlias (ip : List Char) : Prop :=
  ∃ x y, y < 256 ∧ 1 ≤ 256 * x + y ∧ 256 * x + y ≤ 65534 ∧
    ip = "127.77.".toList ++ Nat.toDigits 10 x ++ '.' :: Nat.toDigits 10 y

theorem isAlias_iff {ip : List Char} : IsAlias ip ↔ ∃ slot, 1 ≤ slot ∧ slot ≤ slots ∧ ip = slotAddress slot := by
  have split (x y : Nat) (small : y < 256) : slotAddress (256 * x + y) =
      "127.77.".toList ++ Nat.toDigits 10 x ++ '.' :: Nat.toDigits 10 y := by
    have high : (256 * x + y) >>> 8 = x := by
      rw [Nat.shiftRight_eq_div_pow]
      omega
    have low : (256 * x + y) &&& 255 = y := by
      rw [Nat.and_two_pow_sub_one_eq_mod _ 8]
      omega
    simp [slotAddress, addressPrefix, high, low]
  constructor
  · rintro ⟨x, y, small, least, most, rfl⟩
    exact ⟨256 * x + y, least, most, (split x y small).symm⟩
  · rintro ⟨slot, least, most, rfl⟩
    have parts : 256 * (slot / 256) + slot % 256 = slot := Nat.div_add_mod slot 256
    have bound : slot ≤ 65534 := most
    refine ⟨slot / 256, slot % 256, Nat.mod_lt _ (by decide), by omega, by omega, ?_⟩
    rw [← split _ _ (Nat.mod_lt _ (by decide)), parts]

theorem IsAlias.begins {ip : List Char} (alias_ : IsAlias ip) : (addressPrefix ++ ['.']).isPrefixOf ip = true := by
  obtain ⟨x, y, -, -, -, rfl⟩ := alias_
  simp [addressPrefix]

def IsHostOf (hosts : List (List Char)) (name : List Char) : Prop :=
  ∃ host ∈ hosts, isAliasableHost host = true ∧ normalizeHostname host = name

/-- What the allocation promises of the addresses. -/
structure Aliases (hosts : List (List Char)) (existing : Existing) (addresses : Addresses) : Prop where
  once : (addresses.map (·.1)).Nodup
  keys : ∀ name, name ∈ addresses.map (·.1) ↔ IsHostOf hosts name
  distinct : (addresses.map (·.2)).Nodup
  inRange : ∀ entry ∈ addresses, IsAlias entry.2
  stays : ∀ name ip, IsHostOf hosts name → existing name = some ip → IsAlias ip →
    (∀ other, IsHostOf hosts other → existing other = some ip → other = name) → (name, ip) ∈ addresses

/-- The allocation ends, keeps its promise and does not depend on the order or repetition of the hosts. -/
structure AllocatesAliases (hosts : List (List Char)) (existing : Existing) : Prop where
  ends : ∃ addresses, allocate hosts existing = some addresses ∧ Aliases hosts existing addresses
  unordered : ∀ hosts', (∀ host, host ∈ hosts' ↔ host ∈ hosts) → allocate hosts' existing = allocate hosts existing

theorem sortedSet_congr {left right : List (List Char)} (same : ∀ name, name ∈ left ↔ name ∈ right) :
    sortedSet left = sortedSet right := by
  have perm : (sortedSet left).Perm (sortedSet right) := by
    unfold sortedSet
    apply ((List.perm_insertionSort _ _).trans _).trans (List.perm_insertionSort _ _).symm
    apply (List.perm_ext_iff_of_nodup (List.nodup_dedup _) (List.nodup_dedup _)).mpr
    intro name
    rw [List.mem_dedup, List.mem_dedup]
    exact same name
  exact perm.eq_of_pairwise' (List.pairwise_insertionSort _ _) (List.pairwise_insertionSort _ _)

theorem allocate_congr {hosts hosts' : List (List Char)} (existing : Existing)
    (same : ∀ host, host ∈ hosts' ↔ host ∈ hosts) : allocate hosts' existing = allocate hosts existing := by
  have names : sortedNames hosts' = sortedNames hosts := by
    apply sortedSet_congr
    intro name
    simp [same]
  unfold allocate
  rw [names]

theorem keptAddress_eq_some {existing : Existing} {name ip : List Char} :
    keptAddress existing name = some ip ↔ existing name = some ip ∧ (addressPrefix ++ ['.']).isPrefixOf ip = true :=
  Option.filter_eq_some_iff

theorem allocates_aliases_iff {hosts : List (List Char)} (existing : Existing) (few : (sortedNames hosts).length ≤ 65534) :
    AllocatesAliases hosts existing ↔ ∀ name ip, IsHostOf hosts name → existing name = some ip →
      (addressPrefix ++ ['.']).isPrefixOf ip = true → IsAlias ip := by
  constructor
  · intro promise name ip host applied begins
    obtain ⟨addresses, ended, aliases⟩ := promise.ends
    have kept := keptAddress_eq_some.mpr ⟨applied, begins⟩
    obtain ⟨owner, held, _⟩ := (allocated ended).kept name (mem_sortedNames.mpr host) ip kept
    exact aliases.inRange _ held
  · intro sane
    obtain ⟨addresses, ended⟩ := allocate_total existing few
    have result := allocated ended
    have keys : ∀ name, name ∈ addresses.map (·.1) ↔ IsHostOf hosts name := by
      intro name
      rw [result.names]
      exact mem_sortedNames
    refine ⟨⟨addresses, ended, result.distinct.names, keys, result.distinct.addresses, ?_, ?_⟩, fun hosts' => allocate_congr existing⟩
    · intro entry member
      rcases result.source entry member with kept | slot
      · obtain ⟨applied, begins⟩ := keptAddress_eq_some.mp kept
        have host := (keys entry.1).mp (List.mem_map.mpr ⟨entry, member, rfl⟩)
        exact sane entry.1 entry.2 host applied begins
      · exact isAlias_iff.mpr slot
    · intro name ip host applied alias_ only
      have kept := keptAddress_eq_some.mpr ⟨applied, alias_.begins⟩
      obtain ⟨owner, held, own⟩ := result.kept name (mem_sortedNames.mpr host) ip kept
      have owns := (keys owner).mp (List.mem_map.mpr ⟨_, held, rfl⟩)
      have same := only owner owns (keptAddress_eq_some.mp own).1
      exact same ▸ held

/-- A block with an address of the range and one of another network. -/
def keptText : List Char :=
  "# >>> azbridge client >>>\n127.77.1.5 api.test\n10.0.0.9 db.test\n# <<< azbridge client <<<\n".toList

def keptHosts : List (List Char) := ["db.test".toList, "API.test".toList, "web.test".toList, "localhost".toList]

theorem kept_read : sortedNames keptHosts = ["api.test".toList, "db.test".toList, "web.test".toList] ∧
    existingEntries keptText localTag "api.test".toList = some "127.77.1.5".toList ∧
    existingEntries keptText localTag "db.test".toList = some "10.0.0.9".toList ∧
    existingEntries keptText localTag "web.test".toList = none ∧
    allocate keptHosts (existingEntries keptText localTag) = some [("api.test".toList, "127.77.1.5".toList),
      ("db.test".toList, "127.77.219.176".toList), ("web.test".toList, "127.77.102.58".toList)] := by decide +kernel

/-- The address of the range stays, the other names get one. -/
theorem allocates_aliases_local : AllocatesAliases keptHosts (existingEntries keptText localTag) ∧
    ("api.test".toList, "127.77.1.5".toList) ∈ (allocate keptHosts (existingEntries keptText localTag)).getD [] := by
  obtain ⟨names, kept, other, fresh, ended⟩ := kept_read
  refine ⟨(allocates_aliases_iff _ (by rw [names]; decide)).mpr ?_, by rw [ended]; exact .head _⟩
  intro name ip host applied begins
  have member := mem_sortedNames.mpr host
  rw [names] at member
  rcases List.mem_cons.mp member with rfl | member
  · obtain rfl := Option.some.inj (kept.symm.trans applied)
    exact isAlias_iff.mpr ⟨261, by decide, by decide, by decide +kernel⟩
  · rcases List.mem_cons.mp member with rfl | member
    · obtain rfl := Option.some.inj (other.symm.trans applied)
      exact absurd begins (by decide +kernel)
    · obtain rfl := List.mem_singleton.mp member
      cases fresh.symm.trans applied

/-- A hosts file in which someone typed an address that is none. -/
def mistypedText : List Char := "# >>> azbridge client >>>\n127.77.300.1 svc.example.test\n# <<< azbridge client <<<\n".toList

theorem mistyped_address_allocated :
    allocate ["svc.example.test".toList] (existingEntries mistypedText localTag) =
        some [("svc.example.test".toList, "127.77.300.1".toList)] ∧
      (sortedNames ["svc.example.test".toList]).length ≤ 65534 ∧
      ¬ AllocatesAliases ["svc.example.test".toList] (existingEntries mistypedText localTag) := by
  have ended : allocate ["svc.example.test".toList] (existingEntries mistypedText localTag) =
      some [("svc.example.test".toList, "127.77.300.1".toList)] := by decide +kernel
  refine ⟨ended, by decide +kernel, fun promise => ?_⟩
  obtain ⟨addresses, same, aliases⟩ := promise.ends
  rw [ended] at same
  cases same
  obtain ⟨slot, least, most, same⟩ := isAlias_iff.mp (aliases.inRange _ (.head _))
  have written : slotAddress (300 * 256 + 1) = "127.77.300.1".toList := by decide +kernel
  have far := slotAddress_injective (same.symm.trans written.symm)
  have bound : slot ≤ 65534 := most
  omega

end Azbridge.Hosts
