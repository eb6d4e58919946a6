import Mathlib

/-!
# Maps as association lists

`AList` with the update of every value, for maps that code iterates over, and with totals: a
measure of the values summed over all entries, and how removals and insertions change it.
-/

namespace Yggdrasil.Library

universe u v

/-- A finite map from keys to values of one type. -/
abbrev KeyedMap (Key : Type u) (Value : Type v) := AList fun _ : Key => Value

namespace KeyedMap

variable {Key : Type u} {Value : Type v}

def single (key : Key) (value : Value) : KeyedMap Key Value := AList.singleton key value

def pairs (map : KeyedMap Key Value) : List (Key × Value) :=
  map.entries.map fun entry => (entry.1, entry.2)

/-- Change every value. -/
def mapValues (f : Value → Value) (map : KeyedMap Key Value) : KeyedMap Key Value where
  entries := map.entries.map fun entry => ⟨entry.1, f entry.2⟩
  nodupKeys := by
    have hkeys : (map.entries.map fun entry => (⟨entry.1, f entry.2⟩ : Sigma fun _ => Value)).keys =
        map.entries.keys := by
      simp [List.keys, List.map_map, Function.comp_def]
    rw [List.NodupKeys, hkeys]
    exact map.nodupKeys

/-- Change every value, by its key. -/
def mapEntries (f : Key → Value → Value) (map : KeyedMap Key Value) : KeyedMap Key Value where
  entries := map.entries.map fun entry => ⟨entry.1, f entry.1 entry.2⟩
  nodupKeys := by
    have hkeys : (map.entries.map fun entry =>
        (⟨entry.1, f entry.1 entry.2⟩ : Sigma fun _ => Value)).keys = map.entries.keys := by
      simp [List.keys, List.map_map, Function.comp_def]
    rw [List.NodupKeys, hkeys]
    exact map.nodupKeys

/-- Keep the entries that satisfy a test. -/
def keep (test : Key → Value → Bool) (map : KeyedMap Key Value) : KeyedMap Key Value where
  entries := map.entries.filter fun entry => test entry.1 entry.2
  nodupKeys := List.NodupKeys.sublist List.filter_sublist map.nodupKeys

variable [DecidableEq Key]

/-- Change the value of one key, if it is there. -/
def modify (key : Key) (f : Value → Value) (map : KeyedMap Key Value) : KeyedMap Key Value :=
  match map.lookup key with
  | none => map
  | some value => map.insert key (f value)

/-- Change the value of one key, starting from a default where it is absent. -/
def upsert (key : Key) (default : Value) (f : Value → Value) (map : KeyedMap Key Value) :
    KeyedMap Key Value :=
  map.insert key (f ((map.lookup key).getD default))

theorem lookup_keep (test : Key → Value → Bool) (map : KeyedMap Key Value) (key : Key) :
    (keep test map).lookup key = (map.lookup key).filter (test key) := by
  refine Option.ext fun value => ?_
  have hkept : (keep test map).lookup key = some value ↔ Sigma.mk key value ∈
      map.entries.filter fun entry => test entry.1 entry.2 := AList.mem_lookup_iff
  rw [hkept, List.mem_filter, ← AList.mem_lookup_iff, Option.filter_eq_some_iff]
  rfl

variable {property : Key → Value → Prop} {map : KeyedMap Key Value}
  (hold : ∀ other found, map.lookup other = some found → property other found)
include hold

variable {key : Key}

/-- What holds of every entry and of a new one. -/
theorem forall_lookup_insert {value : Value} (hnew : property key value) :
    ∀ other found, (map.insert key value).lookup other = some found → property other found := by
  intro other found hfound
  by_cases hsame : other = key
  · subst hsame
    rw [AList.lookup_insert] at hfound
    cases hfound
    exact hnew
  · rw [AList.lookup_insert_ne hsame] at hfound
    exact hold other found hfound

theorem forall_lookup_erase (key : Key) :
    ∀ other found, (map.erase key).lookup other = some found → property other found := by
  intro other found hfound
  by_cases hsame : other = key
  · rw [hsame, AList.lookup_erase] at hfound
    cases hfound
  · rw [AList.lookup_erase_ne hsame] at hfound
    exact hold other found hfound

omit hold

theorem lookup_mapEntries (f : Key → Value → Value) (map : KeyedMap Key Value) (key : Key) :
    (mapEntries f map).lookup key = (map.lookup key).map (f key) := by
  refine Option.ext fun value => ?_
  rw [← Option.mem_def, AList.mem_lookup_iff, mapEntries, List.mem_map, Option.map_eq_some_iff]
  constructor
  · rintro ⟨⟨other, held⟩, hentry, hsame⟩
    cases hsame
    exact ⟨held, AList.mem_lookup_iff.mpr hentry, rfl⟩
  · rintro ⟨held, hlookup, rfl⟩
    exact ⟨⟨key, held⟩, AList.mem_lookup_iff.mp hlookup, rfl⟩

theorem lookup_mapValues (f : Value → Value) (map : KeyedMap Key Value) (key : Key) :
    (mapValues f map).lookup key = (map.lookup key).map f :=
  lookup_mapEntries (fun _ => f) map key

variable {f : Value → Value}

/-- What a change of one value leaves alone in every value. -/
theorem map_lookup_modify {Part : Type*} {part : Value → Part}
    (hkeeps : ∀ value, part (f value) = part value) (map : KeyedMap Key Value) (key other : Key) :
    ((modify key f map).lookup other).map part = (map.lookup other).map part := by
  unfold modify
  cases hlookup : map.lookup key with
  | none => rfl
  | some value =>
    by_cases hother : other = key
    · rw [hother, AList.lookup_insert, hlookup, Option.map_some, Option.map_some, hkeeps]
    · rw [AList.lookup_insert_ne hother]

/-- A change of one value keeps the keys. -/
theorem isSome_lookup_modify (map : KeyedMap Key Value) (key other : Key) :
    ((modify key f map).lookup other).isSome = (map.lookup other).isSome := by
  have hsame : ((modify key f map).lookup other).map (fun _ => ()) =
      (map.lookup other).map fun _ => () := by
    apply map_lookup_modify
    intro value
    rfl
  simpa using congrArg Option.isSome hsame

/-- A map built entry by entry from another one, without the entries that give nothing. -/
theorem lookup_foldl_insert {Result : Type v} (f : Key → Value → Option Result)
    {step : KeyedMap Key Result → (Sigma fun _ : Key => Value) → KeyedMap Key Result}
    (hstep : ∀ built entry,
      step built entry = (f entry.1 entry.2).elim built fun result => built.insert entry.1 result)
    (map : KeyedMap Key Value) (key : Key) :
    (map.entries.foldl step ∅).lookup key = (map.lookup key).bind (f key) := by
  have hfold : ∀ (entries : List (Sigma fun _ => Value)), entries.NodupKeys →
      ∀ start : KeyedMap Key Result, (key ∈ entries.keys → start.lookup key = none) →
        (entries.foldl step start).lookup key =
          ((List.dlookup key entries).bind (f key)).or (start.lookup key) := by
    intro entries
    induction entries with
    | nil => exact fun _ start _ => rfl
    | cons entry rest ih =>
      obtain ⟨other, value⟩ := entry
      intro hdistinct start habsent
      rw [List.nodupKeys_cons] at hdistinct
      rw [List.foldl_cons]
      by_cases hsame : key = other
      · subst hsame
        have hstart := habsent List.mem_cons_self
        have hrest : List.dlookup key rest = none := List.dlookup_eq_none.mpr hdistinct.1
        rw [ih hdistinct.2 _ (fun hmem => absurd hmem hdistinct.1), hrest, hstep]
        cases hresult : f key value with
        | none => simp [hresult]
        | some result => simp [hresult]
      · have hkept : (step start ⟨other, value⟩).lookup key = start.lookup key := by
          rw [hstep]
          cases f other value with
          | none => rfl
          | some result => exact AList.lookup_insert_ne hsame
        rw [List.dlookup_cons_ne _ _ hsame, ih hdistinct.2 _ ?_, hkept]
        intro hmem
        rw [hkept]
        exact habsent (List.mem_cons_of_mem _ hmem)
  have hempty : (∅ : KeyedMap Key Result).lookup key = none := rfl
  rw [hfold map.entries map.nodupKeys ∅ (fun _ => rfl), hempty, Option.or_none]
  rfl

/-! ## Totals -/

/-- A measure summed over all entries. -/
def total (measure : Value → Nat) (map : KeyedMap Key Value) : Nat :=
  (map.entries.map fun entry => measure entry.2).sum

/-- The measure of the value at one key, zero when the key is absent. -/
def amountAt (measure : Value → Nat) (map : KeyedMap Key Value) (key : Key) : Nat :=
  ((map.lookup key).map measure).getD 0

/-- Remove every key of a list. -/
def eraseAll (keys : List Key) (map : KeyedMap Key Value) : KeyedMap Key Value :=
  keys.foldl (fun map key => map.erase key) map

theorem lookup_eraseAll (keys : List Key) (map : KeyedMap Key Value) (key : Key) :
    (eraseAll keys map).lookup key = if key ∈ keys then none else map.lookup key := by
  induction keys generalizing map with
  | nil => simp [eraseAll]
  | cons first rest ih =>
    have hstep : eraseAll (first :: rest) map = eraseAll rest (map.erase first) := rfl
    rw [hstep, ih]
    by_cases hsame : key = first
    · subst hsame
      simp
    · simp [hsame]

variable {map : KeyedMap Key Value} (measure : Value → Nat)

/-- Removing a key takes its amount away. -/
theorem total_erase (map : KeyedMap Key Value) (key : Key) :
    total measure (map.erase key) + amountAt measure map key = total measure map := by
  have hentries : ∀ entries : List (Sigma fun _ => Value),
      ((entries.kerase key).map fun entry => measure entry.2).sum +
        ((List.dlookup key entries).map measure).getD 0 =
          (entries.map fun entry => measure entry.2).sum := by
    intro entries
    induction entries with
    | nil => rfl
    | cons entry rest ih =>
      obtain ⟨other, value⟩ := entry
      by_cases hsame : key = other
      · subst hsame
        simp [List.dlookup_cons_eq]
        omega
      · rw [List.kerase_cons_ne hsame, List.dlookup_cons_ne _ _ hsame, List.map_cons,
          List.map_cons, List.sum_cons, List.sum_cons]
        omega
  exact hentries map.entries

/-- A fresh key adds the measure of its value. -/
theorem total_insert_of_notMem (value : Value) (hfresh : key ∉ map) :
    total measure (map.insert key value) = total measure map + measure value := by
  unfold total
  rw [AList.insert_of_notMem hfresh, List.map_cons, List.sum_cons, add_comm]

/-- Writing a key replaces its amount. -/
theorem total_insert (map : KeyedMap Key Value) (key : Key) (value : Value) :
    total measure (map.insert key value) + amountAt measure map key =
      total measure map + measure value := by
  have herase := total_erase measure map key
  have hinsert : total measure (map.insert key value) =
      measure value + total measure (map.erase key) := by
    unfold total
    rw [AList.entries_insert]
    rfl
  omega

theorem total_modify (map : KeyedMap Key Value) (key : Key) (f : Value → Value) :
    total measure (modify key f map) + amountAt measure map key =
      total measure map + amountAt (fun value => measure (f value)) map key := by
  unfold modify
  cases hlookup : map.lookup key with
  | none => simp [amountAt, hlookup]
  | some value =>
    have hinsert := total_insert measure map key (f value)
    simp only [amountAt, hlookup, Option.map_some] at hinsert ⊢
    exact hinsert

theorem amountAt_of_lookup {measure : Value → Nat} {value : Value}
    (hlookup : map.lookup key = some value) :
    amountAt measure map key = measure value := by
  simp [amountAt, hlookup]

/-- A change that does not touch the measure keeps the total. -/
theorem total_modify_of_eq {measure : Value → Nat}
    (hsame : ∀ value, measure (f value) = measure value) (map : KeyedMap Key Value) (key : Key) :
    total measure (modify key f map) = total measure map := by
  have hmodify := total_modify measure map key f
  have hmeasure : (fun value => measure (f value)) = measure := funext hsame
  rw [hmeasure] at hmodify
  omega

/-- Measures that agree on the values of a map have the same total. -/
theorem total_congr {measure other : Value → Nat}
    (hsame : ∀ key value, map.lookup key = some value → measure value = other value) :
    total measure map = total other map := by
  refine congrArg List.sum (List.map_congr_left fun entry hentry => ?_)
  exact hsame entry.1 entry.2 (AList.mem_lookup_iff.mpr hentry)

/-- A map whose keys are in a list holds at most what is allowed for the list. -/
theorem total_le_sum {measure : Value → Nat} {keys : List Key} {limit : Key → Nat}
    (hlimit : ∀ key value, map.lookup key = some value → key ∈ keys ∧ measure value ≤ limit key) :
    total measure map ≤ (keys.map limit).sum := by
  have hentry : ∀ entry ∈ map.entries, entry.1 ∈ keys ∧ measure entry.2 ≤ limit entry.1 :=
    fun entry hentry => hlimit entry.1 entry.2 (AList.mem_lookup_iff.mpr hentry)
  have hsubset : map.keys ⊆ keys := by
    intro key hkey
    obtain ⟨entry, hmem, rfl⟩ := List.mem_map.mp hkey
    exact (hentry entry hmem).1
  obtain ⟨same, hperm, hsublist⟩ := List.subperm_of_subset map.keys_nodup hsubset
  calc total measure map
      ≤ (map.entries.map fun entry => limit entry.1).sum :=
        List.sum_le_sum fun entry hmem => (hentry entry hmem).2
    _ = (map.keys.map limit).sum := by
        rw [AList.keys, List.keys, List.map_map]
        rfl
    _ = (same.map limit).sum := (hperm.map limit).sum_eq.symm
    _ ≤ (keys.map limit).sum := (hsublist.map limit).sum_le_sum fun _ _ => Nat.zero_le _

omit [DecidableEq Key] in
theorem total_mapValues (f : Value → Value) (map : KeyedMap Key Value) :
    total measure (mapValues f map) = total (fun value => measure (f value)) map := by
  simp [total, mapValues, Function.comp_def]

omit [DecidableEq Key] in
theorem total_mapValues_of_eq {measure : Value → Nat}
    (hsame : ∀ value, measure (f value) = measure value) (map : KeyedMap Key Value) :
    total measure (mapValues f map) = total measure map := by
  rw [total_mapValues, funext hsame]

omit [DecidableEq Key] in
theorem total_mapEntries_of_eq {measure : Value → Nat} {f : Key → Value → Value}
    (hsame : ∀ key value, measure (f key value) = measure value) (map : KeyedMap Key Value) :
    total measure (mapEntries f map) = total measure map := by
  simp [total, mapEntries, Function.comp_def, hsame]

omit [DecidableEq Key] in
/-- A test splits the total. -/
theorem total_keep (test : Key → Value → Bool) (map : KeyedMap Key Value) :
    total measure (keep test map) + total measure (keep (fun key value => !test key value) map) =
      total measure map := by
  have hparts := (List.filter_append_perm (fun entry => test entry.1 entry.2) map.entries).map
    fun entry => measure entry.2
  rw [List.map_append] at hparts
  exact List.sum_append.symm.trans hparts.sum_eq

theorem amountAt_erase (map : KeyedMap Key Value) {other : Key} (hne : other ≠ key) :
    amountAt measure (map.erase key) other = amountAt measure map other := by
  unfold amountAt
  rw [AList.lookup_erase_ne hne]

theorem amountAt_erase_self (map : KeyedMap Key Value) (key : Key) :
    amountAt measure (map.erase key) key = 0 := by
  simp [amountAt]

/-- Removing a list of keys takes away the amount of every key in it once, however often the
list repeats the key. -/
theorem total_eraseAll (keys : List Key) (map : KeyedMap Key Value) :
    total measure (eraseAll keys map) + ∑ key ∈ keys.toFinset, amountAt measure map key =
      total measure map := by
  induction keys generalizing map with
  | nil => simp [eraseAll]
  | cons first rest ih =>
    have hstep : eraseAll (first :: rest) map = eraseAll rest (map.erase first) := rfl
    have hrest := ih (map.erase first)
    have hfirst := total_erase measure map first
    -- the sum over all keys is the amount of the first plus what the rest holds without it
    have hsum : ∑ key ∈ (first :: rest).toFinset, amountAt measure map key =
        amountAt measure map first +
          ∑ key ∈ rest.toFinset, amountAt measure (map.erase first) key := by
      have hoff : ∑ key ∈ rest.toFinset.erase first, amountAt measure map key =
          ∑ key ∈ rest.toFinset, amountAt measure (map.erase first) key := by
        rw [← Finset.sum_erase rest.toFinset (amountAt_erase_self measure map first)]
        refine Finset.sum_congr rfl fun key hkey => ?_
        exact (amountAt_erase measure map (Finset.ne_of_mem_erase hkey)).symm
      rw [List.toFinset_cons, ← Finset.insert_erase (Finset.mem_insert_self first rest.toFinset),
        Finset.erase_insert_eq_erase, Finset.sum_insert (Finset.notMem_erase first _), hoff]
    rw [hstep, hsum]
    omega

/-- Without repetitions the amounts may be summed along the list. -/
theorem total_eraseAll_of_nodup {keys : List Key} (hnodup : keys.Nodup) (map : KeyedMap Key Value) :
    total measure (eraseAll keys map) + (keys.map (amountAt measure map)).sum =
      total measure map := by
  rw [← List.sum_toFinset _ hnodup]
  exact total_eraseAll measure keys map

/-- Insert a list of entries, the first one first. -/
def insertAll (entries : List (Key × Value)) (map : KeyedMap Key Value) : KeyedMap Key Value :=
  entries.foldl (fun map entry => map.insert entry.1 entry.2) map

/-- The amounts that a list of insertions replaces. -/
def overwritten (measure : Value → Nat) : List (Key × Value) → KeyedMap Key Value → Nat
  | [], _ => 0
  | entry :: rest, map =>
    amountAt measure map entry.1 + overwritten measure rest (map.insert entry.1 entry.2)

/-- New keys, each used once, replace nothing. -/
theorem overwritten_eq_zero {entries : List (Key × Value)} {map : KeyedMap Key Value}
    (hkeys : (entries.map Prod.fst).Nodup) (hnew : ∀ entry ∈ entries, entry.1 ∉ map) :
    overwritten measure entries map = 0 := by
  induction entries generalizing map with
  | nil => rfl
  | cons first rest ih =>
    obtain ⟨hfirst, hrest⟩ := List.nodup_cons.mp hkeys
    obtain ⟨habsent, hlater⟩ := List.forall_mem_cons.mp hnew
    rw [overwritten, ih hrest]
    · unfold amountAt
      rw [AList.lookup_eq_none.mpr habsent]
      rfl
    · intro entry hentry
      rw [AList.mem_insert]
      rintro (hsame | hheld)
      · exact hfirst (hsame ▸ List.mem_map_of_mem hentry)
      · exact hlater entry hentry hheld

/-- Insertions add the measures of their values and lose what they replace. -/
theorem total_insertAll_add (entries : List (Key × Value)) (map : KeyedMap Key Value) :
    total measure (insertAll entries map) + overwritten measure entries map =
      total measure map + (entries.map fun entry => measure entry.2).sum := by
  induction entries generalizing map with
  | nil => simp [insertAll, overwritten]
  | cons first rest ih =>
    have hstep : insertAll (first :: rest) map = insertAll rest (map.insert first.1 first.2) := rfl
    have hfirst := total_insert measure map first.1 first.2
    have hrest := ih (map.insert first.1 first.2)
    rw [hstep, overwritten, List.map_cons, List.sum_cons]
    omega

/-- Fresh and distinct keys add the measures of their values. -/
theorem total_insertAll {entries : List (Key × Value)} (hdistinct : (entries.map Prod.fst).Nodup)
    (hfresh : ∀ entry ∈ entries, entry.1 ∉ map) :
    total measure (insertAll entries map) =
      total measure map + (entries.map fun entry => measure entry.2).sum := by
  induction entries generalizing map with
  | nil => simp [insertAll]
  | cons first rest ih =>
    rw [List.map_cons, List.nodup_cons] at hdistinct
    have hrest : ∀ entry ∈ rest, entry.1 ∉ map.insert first.1 first.2 := by
      intro entry hentry
      rw [AList.mem_insert, not_or]
      refine ⟨fun hsame => hdistinct.1 ?_, hfresh entry (List.mem_cons_of_mem _ hentry)⟩
      exact hsame ▸ List.mem_map_of_mem hentry
    have hstep : insertAll (first :: rest) map = insertAll rest (map.insert first.1 first.2) := rfl
    have hfirst := total_insert_of_notMem measure first.2 (hfresh first List.mem_cons_self)
    rw [hstep, ih hdistinct.2 hrest, hfirst, List.map_cons, List.sum_cons, add_assoc]

end KeyedMap

end Yggdrasil.Library
