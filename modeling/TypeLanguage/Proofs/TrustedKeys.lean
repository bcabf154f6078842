/-
This file proves what a ring of keys holds after any history. Whether keys came one by one
or in collections, the ring is that of all the keys trusted since the last collection, in
order; so every question about it is answered from this list. A key stands under its own
fingerprint, and of keys that share one the last is there, however different they are.
What is picked from an offer is told by the order of the offer, and not by that of the keys.

Nothing is used of a fingerprint but that a key has one.
-/

import Mathlib.Data.Finset.Card
import TypeLanguage.Key.Ring

namespace TypeLanguage

/-- A key is the last of those in a list that have a fingerprint. -/
def PublicKey.IsLastOf [Sha1] (key : PublicKey) (keys : List PublicKey) (id : Int64) : Prop :=
  ∃ before after, keys = before ++ key :: after ∧ key.fingerprintId = id ∧
    ∀ later ∈ after, later.fingerprintId ≠ id

namespace KeyRing

/-! ### Entries and offers -/

theorem mem_toList_iff {ring : KeyRing} {id : Int64} {key : PublicKey} :
    (id, key) ∈ ring.toList ↔ ring.get? id = some key :=
  Std.TreeMap.mem_toList_iff_getElem?_eq_some

theorem findFirstKnown?_eq_some_iff {ring : KeyRing} {offered : List Int64} {id : Int64}
    {key : PublicKey} :
    ring.findFirstKnown? offered = some (id, key) ↔
      ∃ before after, offered = before ++ id :: after ∧ ring.get? id = some key ∧
        ∀ earlier ∈ before, ring.get? earlier = none := by
  simp only [findFirstKnown?, List.findSome?_eq_some_iff, Option.map_eq_some_iff,
    Option.map_eq_none_iff, Prod.mk.injEq]
  refine ⟨?_, ?_⟩
  · rintro ⟨before, _, after, split, ⟨_, found, rfl, rfl⟩, unknown⟩
    exact ⟨before, after, split, found, unknown⟩
  · rintro ⟨before, after, split, found, unknown⟩
    exact ⟨before, id, after, split, ⟨key, found, rfl, rfl⟩, unknown⟩

theorem findFirstKnown?_eq_none_iff {ring : KeyRing} {offered : List Int64} :
    ring.findFirstKnown? offered = none ↔ ∀ id ∈ offered, ring.get? id = none := by
  simp [findFirstKnown?]

variable [Sha1]

/-! ### Histories -/

/-- A call that changes which keys are trusted: one key more, or the keys of a collection
instead of those so far. -/
inductive Call
  | insert (key : PublicKey)
  | collect (keys : List PublicKey)

/-- The ring after a call. -/
def run (ring : KeyRing) : Call → KeyRing
  | .insert key => ring.insert key
  | .collect keys => ofList keys

/-- The ring after calls in sequence, the first one on the ring without keys. -/
def runAll (calls : List Call) : KeyRing :=
  calls.foldl run empty

/-- The keys inserted into a ring after a call, where those before it are given. -/
def insertedAfter (keys : List PublicKey) : Call → List PublicKey
  | .insert key => keys ++ [key]
  | .collect collected => collected

/-- All the keys inserted into the ring that calls leave, in order. -/
def inserted (calls : List Call) : List PublicKey :=
  calls.foldl insertedAfter []

theorem run_ofList (keys : List PublicKey) (call : Call) :
    run (ofList keys) call = ofList (insertedAfter keys call) := by
  cases call with
  | insert key => simp [run, insertedAfter, ofList]
  | collect collected => rfl

/-- Only the keys inserted matter, and their order. -/
theorem runAll_eq (calls : List Call) : runAll calls = ofList (inserted calls) := by
  have from_ofList (keys : List PublicKey) :
      calls.foldl run (ofList keys) = ofList (calls.foldl insertedAfter keys) := by
    induction calls generalizing keys with
    | nil => rfl
    | cons call calls inductionHypothesis =>
      rw [List.foldl_cons, List.foldl_cons, run_ofList, inductionHypothesis]
  exact from_ofList []

/-! ### Look-ups -/

theorem get?_ofList (keys : List PublicKey) (id : Int64) :
    (ofList keys).get? id = keys.reverse.find? fun key => key.fingerprintId = id := by
  induction keys using List.reverseRecOn with
  | nil => simp [ofList]
  | append_singleton keys key inductionHypothesis =>
    have step : ofList (keys ++ [key]) = (ofList keys).insert key := by simp [ofList]
    rw [step, get?_insert, inductionHypothesis, List.reverse_concat, List.find?_cons]
    by_cases same : key.fingerprintId = id <;> simp [same]

theorem get?_ofList_eq_some_iff {keys : List PublicKey} {id : Int64} {key : PublicKey} :
    (ofList keys).get? id = some key ↔ key.IsLastOf keys id := by
  rw [get?_ofList, List.find?_eq_some_iff_append]
  refine ⟨?_, ?_⟩
  · rintro ⟨same, after, before, split, others⟩
    refine ⟨before.reverse, after.reverse, ?_, by simpa using same, by simpa using others⟩
    simpa using congrArg List.reverse split
  · rintro ⟨before, after, rfl, same, others⟩
    refine ⟨by simpa using same, after.reverse, before.reverse, by simp, by simpa using others⟩

theorem get?_ofList_eq_none_iff {keys : List PublicKey} {id : Int64} :
    (ofList keys).get? id = none ↔ ∀ key ∈ keys, key.fingerprintId ≠ id := by
  simp [get?_ofList]

/-- There are as many keys as fingerprints. -/
theorem size_ofList (keys : List PublicKey) :
    (ofList keys).size = (keys.map PublicKey.fingerprintId).toFinset.card := by
  have sameIds : (ofList keys).table.keys.toFinset =
      (keys.map PublicKey.fingerprintId).toFinset := by
    ext id
    have known : id ∈ (ofList keys).table ↔ (ofList keys).get? id ≠ none := by
      rw [Std.TreeMap.mem_iff_isSome_getElem?, get?, Option.isSome_iff_ne_none]
    simp [known, get?_ofList_eq_none_iff]
  rw [← sameIds, List.toFinset_card_of_nodup Std.TreeMap.nodup_keys, Std.TreeMap.length_keys,
    size]

/-! ### Rings with a history -/

/-- What holds of a ring into which keys were inserted in order. -/
structure Holds (ring : KeyRing) (keys : List PublicKey) : Prop where
  /-- Every entry stands under the fingerprint of its key. -/
  own : ∀ {id key}, (id, key) ∈ ring.toList → key.fingerprintId = id
  /-- The last key with a fingerprint is found under it. -/
  found : ∀ {id key}, ring.get? id = some key ↔ key.IsLastOf keys id
  notFound : ∀ {id}, ring.get? id = none ↔ ∀ key ∈ keys, key.fingerprintId ≠ id
  /-- Keys are counted by their fingerprints. -/
  size_eq : ring.size = (keys.map PublicKey.fingerprintId).toFinset.card
  /-- The keys could have been collected at once. -/
  collected : ring = ofList keys
  /-- Of an offer the earliest fingerprint of a key is picked, with the last such key. -/
  picked : ∀ {offered id key}, ring.findFirstKnown? offered = some (id, key) ↔
    ∃ before after, offered = before ++ id :: after ∧
      (∀ earlier ∈ before, ∀ other ∈ keys, other.fingerprintId ≠ earlier) ∧
      key.IsLastOf keys id
  notPicked : ∀ {offered}, ring.findFirstKnown? offered = none ↔
    ∀ id ∈ offered, ∀ key ∈ keys, key.fingerprintId ≠ id

/-- After any history a ring holds the keys that were inserted. -/
theorem holds_runAll (calls : List Call) : (runAll calls).Holds (inserted calls) := by
  rw [runAll_eq]
  generalize inserted calls = keys
  refine ⟨fun member => ?_, get?_ofList_eq_some_iff, get?_ofList_eq_none_iff, size_ofList keys,
    rfl, fun {offered id key} => ?_, fun {offered} => ?_⟩
  · obtain ⟨-, -, -, same, -⟩ := get?_ofList_eq_some_iff.1 (mem_toList_iff.1 member)
    exact same
  · simp only [findFirstKnown?_eq_some_iff, get?_ofList_eq_some_iff, get?_ofList_eq_none_iff,
      and_comm]
  · simp only [findFirstKnown?_eq_none_iff, get?_ofList_eq_none_iff]

end KeyRing

end TypeLanguage
